import Evlite.Kcp.Datagrams
import Evlite.Lib.Serial

/-!
# The Order of What Is Received

The numbers on the wire wrap around, and a peer may send any of them. Still the reorder buffer
holds each number at most once, in order and from `rcv_nxt` on, and the segments go to
`rcv_queue` one number after the other.

The numbers are compared with those of a counter that does not wrap around: `rcv_nxt` is the
number of segments that went to `rcv_queue` so far.

## Main results

- `receiveWindow_call`: every call keeps the order, whatever comes in.
- `handed_in_order`: in every run the segments are handed over exactly once, in their order.
-/

namespace Evlite

open Lib (transduce)
open Lib.Serial (toInt_sub_ofNat ofNat_inj_of_close)

/-- The signed difference of two numbers that are close. -/
theorem itimediff_ofNat {a b : Nat} (hlow : b ≤ a + 2 ^ 31) (hhigh : a < b + 2 ^ 31) :
    itimediff (BitVec.ofNat 32 a) (BitVec.ofNat 32 b) = (a : Int) - b :=
  toInt_sub_ofNat hlow hhigh

/-- A number is some counter's, counted from another one. -/
theorem exists_ofNat_from (sn : BitVec 32) (r : Nat) :
    ∃ m, r ≤ m ∧ m < r + 2 ^ 32 ∧ sn = BitVec.ofNat 32 m ∧
      (0 ≤ itimediff sn (BitVec.ofNat 32 r) → m < r + 2 ^ 31) := by
  have hlt := (sn - BitVec.ofNat 32 r).isLt
  refine ⟨r + (sn - BitVec.ofNat 32 r).toNat, by omega, by omega, ?_, ?_⟩
  · rw [BitVec.ofNat_add, BitVec.ofNat_toNat, BitVec.setWidth_eq, BitVec.add_comm,
      BitVec.sub_add_cancel]
  · intro hpos
    unfold itimediff at hpos
    rw [BitVec.toInt_eq_toNat_cond] at hpos
    split at hpos <;> omega

namespace Kcp

/-- The numbers of the receiving side, when `r` segments went to `rcv_queue` so far and those of
`rcv_buf` are the numbers `ms`. -/
structure ReceiveWindow (kcp : Kcp) (r : Nat) (ms : List Nat) : Prop where
  rcvNxt_eq : kcp.rcvNxt = BitVec.ofNat 32 r
  sorted : ms.Pairwise (· < ·)
  ahead : ∀ m ∈ ms, r ≤ m ∧ m < r + 2 ^ 31
  rcvBuf_eq : kcp.rcvBuf.map Segment.sn = ms.map (BitVec.ofNat 32)
  /-- The numbers of `rcv_queue` are the last ones before. -/
  rcvQueue_eq : ∃ q, q + kcp.rcvQueue.length = r ∧
    kcp.rcvQueue.map Segment.sn = (List.range' q kcp.rcvQueue.length).map (BitVec.ofNat 32)

/-! ## Moving to the queue -/

/-- A beginning of the reorder buffer goes to the queue, one number after the other. -/
theorem moveAvailable_eq (rcvWnd : BitVec 32) (rcvBuf rcvQueue : List Segment) (r : Nat) :
    ∃ new rest, rcvBuf = new ++ rest ∧
      moveAvailable rcvWnd rcvBuf rcvQueue (BitVec.ofNat 32 r) =
        (rest, rcvQueue ++ new, BitVec.ofNat 32 (r + new.length)) ∧
      new.map Segment.sn = (List.range' r new.length).map (BitVec.ofNat 32) := by
  induction rcvBuf generalizing rcvQueue r with
  | nil => exact ⟨[], [], rfl, by simp [moveAvailable], rfl⟩
  | cons seg rcvBuf ih =>
    unfold moveAvailable
    split
    · -- the next segment is there, and the queue has room
      rename_i hnext
      have hsucc : BitVec.ofNat 32 r + 1 = BitVec.ofNat 32 (r + 1) := (BitVec.ofNat_add r 1).symm
      obtain ⟨new, rest, hbuf, hmove, hnumbers⟩ := ih (rcvQueue ++ [seg]) (r + 1)
      refine ⟨seg :: new, rest, by rw [hbuf, List.cons_append], ?_, ?_⟩
      · rw [hsucc, hmove, List.append_assoc, List.singleton_append, List.length_cons,
          Nat.add_assoc r 1, Nat.add_comm 1]
      · rw [List.map_cons, hnumbers, hnext.1, List.length_cons, List.range'_succ, List.map_cons]
    · exact ⟨[], seg :: rcvBuf, rfl, by simp, rfl⟩

/-- Numbers that follow one another, and numbers from there on. -/
theorem sorted_split {r k : Nat} {ms : List Nat} {rest : List (BitVec 32)}
    (hsorted : ms.Pairwise (· < ·)) (hahead : ∀ m ∈ ms, r ≤ m ∧ m < r + 2 ^ 31)
    (hms : ms.map (BitVec.ofNat 32) = (List.range' r k).map (BitVec.ofNat 32) ++ rest) :
    ∃ ms', ms = List.range' r k ++ ms' ∧ rest = ms'.map (BitVec.ofNat 32) := by
  induction k generalizing r ms with
  | zero => exact ⟨ms, rfl, hms.symm⟩
  | succ k ih =>
    rw [List.range'_succ, List.map_cons, List.cons_append] at hms
    cases ms with
    | nil => cases hms
    | cons m ms =>
      rw [List.map_cons, List.cons.injEq] at hms
      have hm := hahead m List.mem_cons_self
      have heq : m = r := ofNat_inj_of_close (by omega) (by omega) hms.1
      obtain ⟨habove, hsorted⟩ := List.pairwise_cons.mp hsorted
      have hahead' : ∀ n ∈ ms, r + 1 ≤ n ∧ n < r + 1 + 2 ^ 31 := by
        intro n hn
        have hlow := habove n hn
        have hhigh := hahead n (List.mem_cons_of_mem m hn)
        omega
      obtain ⟨ms', hrest, hnumbers⟩ := ih hsorted hahead' hms.2
      exact ⟨ms', by rw [heq, hrest, List.range'_succ, List.cons_append], hnumbers⟩

/-- What is moved to the queue are the numbers from `r` on. -/
theorem ReceiveWindow.refill {kcp : Kcp} {r : Nat} {ms : List Nat} (h : kcp.ReceiveWindow r ms) :
    ∃ new ms', ms = List.range' r new.length ++ ms' ∧
      kcp.refill.ReceiveWindow (r + new.length) ms' ∧
      kcp.refill.rcvQueue = kcp.rcvQueue ++ new ∧ kcp.rcvBuf = new ++ kcp.refill.rcvBuf ∧
      new.map Segment.sn = (List.range' r new.length).map (BitVec.ofNat 32) := by
  obtain ⟨new, rest, hbuf, hmove, hnew⟩ := moveAvailable_eq kcp.rcvWnd kcp.rcvBuf kcp.rcvQueue r
  have hnumbers := h.rcvBuf_eq
  rw [hbuf, List.map_append, hnew] at hnumbers
  obtain ⟨ms', hms, hrest⟩ := sorted_split h.sorted h.ahead hnumbers.symm
  rw [← h.rcvNxt_eq] at hmove
  have hrefill : kcp.refill = { kcp with
      rcvBuf := rest, rcvQueue := kcp.rcvQueue ++ new
      rcvNxt := BitVec.ofNat 32 (r + new.length) } := by
    unfold Kcp.refill
    rw [hmove]
  obtain ⟨q, hq, hqueue⟩ := h.rcvQueue_eq
  have hsorted := h.sorted
  rw [hms] at hsorted
  obtain ⟨-, hsorted, hbelow⟩ := List.pairwise_append.mp hsorted
  rw [hrefill]
  refine ⟨new, ms', hms, ?_, rfl, hbuf, hnew⟩
  refine
    { rcvNxt_eq := rfl
      sorted := hsorted
      ahead := ?_
      rcvBuf_eq := hrest
      rcvQueue_eq := ⟨q, ?_, ?_⟩ }
  · intro m hm
    have hm' := h.ahead m (by rw [hms]; exact List.mem_append_right _ hm)
    refine ⟨?_, by omega⟩
    -- the numbers that are left are above those that were moved
    cases hlast : new.length with
    | zero => omega
    | succ k =>
      have hlt := hbelow (r + k) (List.mem_range'_1.mpr (by omega)) m hm
      omega
  · rw [List.length_append]
    omega
  · rw [List.length_append, List.map_append, hqueue, hnew, ← List.map_append, ← hq,
      List.range'_append_1]

/-- The segments that went to the queue of `kcp'` since `kcp` are the numbers from `r` on. -/
structure Arrived (kcp kcp' : Kcp) (r : Nat) (new : List Segment) : Prop where
  window : ∃ ms, kcp'.ReceiveWindow (r + new.length) ms
  rcvQueue_eq : kcp'.rcvQueue = kcp.rcvQueue ++ new
  numbers : new.map Segment.sn = (List.range' r new.length).map (BitVec.ofNat 32)

theorem ReceiveWindow.arrived_refill {kcp : Kcp} {r : Nat} {ms : List Nat}
    (h : kcp.ReceiveWindow r ms) : ∃ new, kcp.Arrived kcp.refill r new := by
  obtain ⟨new, ms', -, hwindow, hqueue, -, hnumbers⟩ := h.refill
  exact ⟨new, ⟨ms', hwindow⟩, hqueue, hnumbers⟩

/-! ## A new segment -/

/-- The place of a segment in the reorder buffer, whose last segment comes first here. -/
theorem insertSegment_eq {newseg : Segment} {buf : List Segment} {ns : List Nat} {r m : Nat}
    (hsorted : ns.Pairwise (· > ·)) (hahead : ∀ n ∈ ns, r ≤ n ∧ n < r + 2 ^ 31)
    (hbuf : buf.map Segment.sn = ns.map (BitVec.ofNat 32)) (hsn : newseg.sn = BitVec.ofNat 32 m)
    (hm : r ≤ m ∧ m < r + 2 ^ 31) :
    (m ∈ ns ∧ insertSegment newseg buf = none) ∨
      ∃ above below na nb, buf = above ++ below ∧ ns = na ++ nb ∧
        above.map Segment.sn = na.map (BitVec.ofNat 32) ∧
        below.map Segment.sn = nb.map (BitVec.ofNat 32) ∧
        (∀ n ∈ na, m < n) ∧ (∀ n ∈ nb, n < m) ∧
        insertSegment newseg buf = some (above ++ newseg :: below) := by
  induction buf generalizing ns with
  | nil =>
    rw [List.map_nil, eq_comm, List.map_eq_nil_iff] at hbuf
    exact .inr ⟨[], [], [], [], rfl, hbuf, rfl, rfl, by simp, by simp, rfl⟩
  | cons seg buf ih =>
    cases ns with
    | nil => cases hbuf
    | cons n ns =>
      rw [List.map_cons, List.map_cons, List.cons.injEq] at hbuf
      obtain ⟨hseg, hbuf⟩ := hbuf
      obtain ⟨hbelow, hsorted⟩ := List.pairwise_cons.mp hsorted
      have hn := hahead n List.mem_cons_self
      have hdiff : itimediff newseg.sn seg.sn = (m : Int) - n := by
        rw [hsn, hseg]
        exact itimediff_ofNat (by omega) (by omega)
      have hsame : seg.sn = newseg.sn ↔ n = m := by
        rw [hsn, hseg]
        exact ⟨ofNat_inj_of_close (by omega) (by omega), fun h => by rw [h]⟩
      unfold insertSegment
      split
      · -- a repeat
        rename_i hrepeat
        left
        exact ⟨by rw [hsame.mp hrepeat]; exact List.mem_cons_self, rfl⟩
      · rename_i hother
        have hne : n ≠ m := fun h => hother (hsame.mpr h)
        split
        · -- its place is behind this segment
          rename_i hlater
          rw [hdiff] at hlater
          refine .inr ⟨[], seg :: buf, [], n :: ns, rfl, rfl, rfl, by simp [hseg, hbuf], by simp, ?_, rfl⟩
          intro k hk
          rcases List.mem_cons.mp hk with rfl | hk
          · omega
          · have hlt := hbelow k hk
            omega
        · rename_i hearlier
          rw [hdiff] at hearlier
          rcases ih hsorted (fun k hk => hahead k (List.mem_cons_of_mem n hk)) hbuf with
            ⟨hmem, hnone⟩ | ⟨above, below, na, nb, rfl, rfl, habove, hbelow', hna, hnb, hsome⟩
          · left
            exact ⟨List.mem_cons_of_mem n hmem, by rw [hnone]; rfl⟩
          · right
            refine ⟨seg :: above, below, n :: na, nb, rfl, rfl, by simp [hseg, habove], hbelow', ?_,
              hnb, by rw [hsome]; rfl⟩
            intro k hk
            rcases List.mem_cons.mp hk with rfl | hk
            · omega
            · exact hna k hk

/-- What `ikcp_parse_data` does: nothing, or the segment is in the reorder buffer already, or
it gets its place there; and then what is available is moved. -/
theorem ReceiveWindow.parseData {kcp : Kcp} {r : Nat} {ms : List Nat} (h : kcp.ReceiveWindow r ms)
    (newseg : Segment) :
    (kcp.ikcpParseData newseg = kcp ∧ (itimediff newseg.sn kcp.rcvNxt < 0 ∨
      0 ≤ itimediff newseg.sn (kcp.rcvNxt + kcp.rcvWnd))) ∨
    ∃ m, r ≤ m ∧ m < r + 2 ^ 31 ∧ newseg.sn = BitVec.ofNat 32 m ∧
      ((m ∈ ms ∧ kcp.ikcpParseData newseg = kcp.refill) ∨
        (m ∉ ms ∧ ∃ before after ms', kcp.rcvBuf = before ++ after ∧
          kcp.ikcpParseData newseg = { kcp with rcvBuf := before ++ newseg :: after }.refill ∧
          { kcp with rcvBuf := before ++ newseg :: after }.ReceiveWindow r ms' ∧
          ∀ n, n ∈ ms' ↔ n = m ∨ n ∈ ms)) := by
  unfold ikcpParseData
  split
  · rename_i hout
    exact .inl ⟨rfl, hout.symm⟩
  · rename_i hwindow
    right
    obtain ⟨m, hlow, -, hsn, hhigh⟩ := exists_ofNat_from newseg.sn r
    have hm : r ≤ m ∧ m < r + 2 ^ 31 := by
      refine ⟨hlow, hhigh ?_⟩
      rw [← h.rcvNxt_eq]
      omega
    refine ⟨m, hm.1, hm.2, hsn, ?_⟩
    -- the buffer is walked from its end
    have hsorted : ms.reverse.Pairwise (· > ·) := List.pairwise_reverse.mpr h.sorted
    have hahead : ∀ n ∈ ms.reverse, r ≤ n ∧ n < r + 2 ^ 31 :=
      fun n hn => h.ahead n (List.mem_reverse.mp hn)
    have hbuf : kcp.rcvBuf.reverse.map Segment.sn = ms.reverse.map (BitVec.ofNat 32) := by
      rw [List.map_reverse, List.map_reverse, h.rcvBuf_eq]
    rcases insertSegment_eq hsorted hahead hbuf hsn hm with
      ⟨hmem, hnone⟩ | ⟨above, below, na, nb, hsplit, hns, habove, hbelow, hna, hnb, hsome⟩
    · left
      rw [hnone]
      exact ⟨List.mem_reverse.mp hmem, rfl⟩
    · right
      rw [hsome]
      have hms : ms = nb.reverse ++ na.reverse := by
        rw [← List.reverse_append, ← hns, List.reverse_reverse]
      refine ⟨?_, below.reverse, above.reverse, nb.reverse ++ m :: na.reverse, ?_, ?_, ?_, ?_⟩
      · rw [hms]
        intro hmem
        rcases List.mem_append.mp hmem with hmem | hmem
        · exact Nat.lt_irrefl m (hnb m (List.mem_reverse.mp hmem))
        · exact Nat.lt_irrefl m (hna m (List.mem_reverse.mp hmem))
      · rw [← List.reverse_append, ← hsplit, List.reverse_reverse]
      · simp
      · have hparts := h.sorted
        rw [hms] at hparts
        obtain ⟨hsortedb, hsorteda, hba⟩ := List.pairwise_append.mp hparts
        refine
          { rcvNxt_eq := h.rcvNxt_eq
            sorted := ?_
            ahead := ?_
            rcvBuf_eq := ?_
            rcvQueue_eq := h.rcvQueue_eq }
        · rw [List.pairwise_append, List.pairwise_cons]
          refine ⟨hsortedb, ⟨fun n hn => hna n (List.mem_reverse.mp hn), hsorteda⟩, ?_⟩
          intro b hb a ha
          rcases List.mem_cons.mp ha with rfl | ha
          · exact hnb b (List.mem_reverse.mp hb)
          · exact hba b hb a ha
        · intro n hn
          rcases List.mem_append.mp hn with hn | hn
          · exact hahead n (by rw [hns]; exact List.mem_append_right _ (List.mem_reverse.mp hn))
          · rcases List.mem_cons.mp hn with rfl | hn
            · exact hm
            · exact hahead n (by rw [hns]; exact List.mem_append_left _ (List.mem_reverse.mp hn))
        · rw [List.map_append, List.map_cons, List.map_append, List.map_cons, List.map_reverse,
            List.map_reverse, List.map_reverse, List.map_reverse, habove, hbelow, hsn]
      · intro n
        rw [hms]
        simp only [List.mem_append, List.mem_cons, List.mem_reverse]
        exact or_left_comm

theorem ReceiveWindow.arrived_nil {kcp : Kcp} {r : Nat} {ms : List Nat} (h : kcp.ReceiveWindow r ms) :
    kcp.Arrived kcp r [] :=
  ⟨⟨ms, h⟩, (List.append_nil _).symm, rfl⟩

theorem Arrived.trans {kcp kcp' kcp'' : Kcp} {r : Nat} {new new' : List Segment}
    (h : kcp.Arrived kcp' r new) (h' : kcp'.Arrived kcp'' (r + new.length) new') :
    kcp.Arrived kcp'' r (new ++ new') := by
  obtain ⟨ms, hwindow⟩ := h'.window
  refine ⟨⟨ms, ?_⟩, ?_, ?_⟩
  · rwa [List.length_append, ← Nat.add_assoc]
  · rw [h'.rcvQueue_eq, h.rcvQueue_eq, List.append_assoc]
  · rw [List.map_append, h.numbers, h'.numbers, ← List.map_append, List.length_append,
      List.range'_append_1]

/-- The segments that go to `rcv_queue` are the numbers from `r` on. -/
theorem ReceiveWindow.ikcpParseData {kcp : Kcp} {r : Nat} {ms : List Nat}
    (h : kcp.ReceiveWindow r ms) (newseg : Segment) :
    ∃ new, kcp.Arrived (kcp.ikcpParseData newseg) r new := by
  rcases h.parseData newseg with
    ⟨hsame, -⟩ | ⟨m, -, -, -, ⟨-, hrun⟩ | ⟨-, before, after, ms', -, hrun, h', -⟩⟩
  · rw [hsame]
    exact ⟨[], h.arrived_nil⟩
  · obtain ⟨new, harrived⟩ := h.arrived_refill
    rw [hrun]
    exact ⟨new, harrived⟩
  · obtain ⟨new, harrived⟩ := h'.arrived_refill
    rw [hrun]
    exact ⟨new, harrived.window, harrived.rcvQueue_eq, harrived.numbers⟩

/-! ## Calls -/

/-- The receiving side is the same. -/
structure SameReceiver (kcp kcp' : Kcp) : Prop where
  rcvNxt_eq : kcp'.rcvNxt = kcp.rcvNxt
  rcvBuf_eq : kcp'.rcvBuf = kcp.rcvBuf
  rcvQueue_eq : kcp'.rcvQueue = kcp.rcvQueue
  rcvWnd_eq : kcp'.rcvWnd = kcp.rcvWnd
  acklist_eq : kcp'.acklist = kcp.acklist

theorem SameReceiver.trans {kcp kcp' kcp'' : Kcp} (h : kcp.SameReceiver kcp')
    (h' : kcp'.SameReceiver kcp'') : kcp.SameReceiver kcp'' where
  rcvNxt_eq := h'.rcvNxt_eq.trans h.rcvNxt_eq
  rcvBuf_eq := h'.rcvBuf_eq.trans h.rcvBuf_eq
  rcvQueue_eq := h'.rcvQueue_eq.trans h.rcvQueue_eq
  rcvWnd_eq := h'.rcvWnd_eq.trans h.rcvWnd_eq
  acklist_eq := h'.acklist_eq.trans h.acklist_eq

theorem ReceiveWindow.congr {kcp kcp' : Kcp} {r : Nat} {ms : List Nat} (h : kcp.ReceiveWindow r ms)
    (hnxt : kcp'.rcvNxt = kcp.rcvNxt) (hbuf : kcp'.rcvBuf = kcp.rcvBuf)
    (hqueue : kcp'.rcvQueue = kcp.rcvQueue) : kcp'.ReceiveWindow r ms where
  rcvNxt_eq := hnxt.trans h.rcvNxt_eq
  sorted := h.sorted
  ahead := h.ahead
  rcvBuf_eq := by rw [hbuf, h.rcvBuf_eq]
  rcvQueue_eq := by rw [hqueue]; exact h.rcvQueue_eq

theorem sameReceiver_ikcpShrinkBuf (kcp : Kcp) : kcp.SameReceiver kcp.ikcpShrinkBuf := by
  unfold ikcpShrinkBuf
  split <;> exact ⟨rfl, rfl, rfl, rfl, rfl⟩

theorem sameReceiver_ikcpParseAck (kcp : Kcp) (sn : BitVec 32) :
    kcp.SameReceiver (kcp.ikcpParseAck sn) := by
  unfold ikcpParseAck
  split <;> exact ⟨rfl, rfl, rfl, rfl, rfl⟩

/-- The data of a segment. -/
def newSegment (p : Packet) : Segment :=
  { frg := p.head.frg, sn := p.head.sn, data := p.data.take p.head.len }

/-- What a segment does to the receiving side: nothing, unless it carries data that is not beyond
the window. Then it is acknowledged, and unless it was received before it is data to parse. -/
theorem inputPacket_cases (kcp : Kcp) (p : Packet) :
    ∃ kcp' : Kcp, kcp.SameReceiver kcp' ∧
      ((kcp.inputPacket p = kcp' ∧
          (p.head.cmd = ikcpCmdPush → 0 ≤ itimediff p.head.sn (kcp.rcvNxt + kcp.rcvWnd))) ∨
        p.head.cmd = ikcpCmdPush ∧ itimediff p.head.sn (kcp.rcvNxt + kcp.rcvWnd) < 0 ∧
          (itimediff p.head.sn kcp.rcvNxt < 0 ∧
              kcp.inputPacket p = kcp'.ikcpAckPush p.head.sn p.head.ts ∨
            0 ≤ itimediff p.head.sn kcp.rcvNxt ∧
              kcp.inputPacket p =
                (kcp'.ikcpAckPush p.head.sn p.head.ts).ikcpParseData (newSegment p))) := by
  have hstart : kcp.SameReceiver ({ kcp with rmtWnd := BitVec.ofNat 32 p.head.wnd }.ikcpParseUna
      p.head.una).ikcpShrinkBuf := by
    have huna : kcp.SameReceiver
        ({ kcp with rmtWnd := BitVec.ofNat 32 p.head.wnd }.ikcpParseUna p.head.una) :=
      ⟨rfl, rfl, rfl, rfl, rfl⟩
    exact huna.trans (sameReceiver_ikcpShrinkBuf _)
  unfold inputPacket inputSegment
  generalize ({ kcp with rmtWnd := BitVec.ofNat 32 p.head.wnd }.ikcpParseUna
    p.head.una).ikcpShrinkBuf = kcp' at hstart ⊢
  dsimp only
  split
  · -- an acknowledgement
    rename_i hack
    refine ⟨_, hstart.trans ((sameReceiver_ikcpParseAck kcp' p.head.sn).trans
      (sameReceiver_ikcpShrinkBuf _)), .inl ⟨rfl, fun hpush => ?_⟩⟩
    rw [hack] at hpush
    exact absurd hpush (by decide)
  · split
    · rename_i hpush
      rw [hstart.rcvNxt_eq, hstart.rcvWnd_eq]
      refine ⟨kcp', hstart, ?_⟩
      split
      · rename_i hwindow
        right
        refine ⟨hpush, hwindow, ?_⟩
        have hnxt : (kcp'.ikcpAckPush p.head.sn p.head.ts).rcvNxt = kcp.rcvNxt := hstart.rcvNxt_eq
        rw [hnxt]
        split
        · rename_i hnew
          exact .inr ⟨hnew, rfl⟩
        · rename_i hold
          exact .inl ⟨Int.not_le.mp hold, rfl⟩
      · rename_i hbeyond
        exact .inl ⟨rfl, fun _ => Int.not_lt.mp hbeyond⟩
    · rename_i hother
      split
      · exact ⟨{ kcp' with probe := kcp'.probe ||| ikcpAskTell },
          ⟨hstart.rcvNxt_eq, hstart.rcvBuf_eq, hstart.rcvQueue_eq, hstart.rcvWnd_eq,
            hstart.acklist_eq⟩, .inl ⟨rfl, fun hpush => absurd hpush hother⟩⟩
      · exact ⟨kcp', hstart, .inl ⟨rfl, fun hpush => absurd hpush hother⟩⟩

theorem ReceiveWindow.inputPacket {kcp : Kcp} {r : Nat} {ms : List Nat} (h : kcp.ReceiveWindow r ms)
    (p : Packet) : ∃ new, kcp.Arrived (kcp.inputPacket p) r new := by
  obtain ⟨kcp', hsame, ⟨hrun, -⟩ | ⟨-, -, ⟨-, hrun⟩ | ⟨-, hrun⟩⟩⟩ := kcp.inputPacket_cases p
  · have h' := h.congr hsame.rcvNxt_eq hsame.rcvBuf_eq hsame.rcvQueue_eq
    rw [hrun]
    exact ⟨[], ⟨⟨ms, h'⟩, by rw [hsame.rcvQueue_eq, List.append_nil], rfl⟩⟩
  · have h' : (kcp'.ikcpAckPush p.head.sn p.head.ts).ReceiveWindow r ms :=
      h.congr hsame.rcvNxt_eq hsame.rcvBuf_eq hsame.rcvQueue_eq
    rw [hrun]
    exact ⟨[], ⟨⟨ms, h'⟩, hsame.rcvQueue_eq.trans (List.append_nil _).symm, rfl⟩⟩
  · have h' : (kcp'.ikcpAckPush p.head.sn p.head.ts).ReceiveWindow r ms :=
      h.congr hsame.rcvNxt_eq hsame.rcvBuf_eq hsame.rcvQueue_eq
    obtain ⟨new, harrived⟩ := h'.ikcpParseData (newSegment p)
    rw [hrun]
    refine ⟨new, ⟨harrived.window, ?_, harrived.numbers⟩⟩
    rw [harrived.rcvQueue_eq]
    exact congrArg (· ++ new) hsame.rcvQueue_eq

theorem ReceiveWindow.inputPackets {kcp : Kcp} {r : Nat} {ms : List Nat} (h : kcp.ReceiveWindow r ms)
    (ps : List Packet) : ∃ new, kcp.Arrived (ps.foldl Kcp.inputPacket kcp) r new := by
  induction ps generalizing kcp r ms with
  | nil => exact ⟨[], h.arrived_nil⟩
  | cons p ps ih =>
    obtain ⟨new, harrived⟩ := h.inputPacket p
    obtain ⟨ms', h'⟩ := harrived.window
    obtain ⟨new', harrived'⟩ := ih h'
    exact ⟨new ++ new', harrived.trans harrived'⟩

/-- Whatever comes in. -/
theorem ReceiveWindow.ikcpInput {kcp : Kcp} {r : Nat} {ms : List Nat} (h : kcp.ReceiveWindow r ms)
    (data : List UInt8) : ∃ new, kcp.Arrived (kcp.ikcpInput data).1 r new := by
  unfold Kcp.ikcpInput
  split
  · exact ⟨[], h.arrived_nil⟩
  · rw [inputLoop_eq]
    exact h.inputPackets _

/-- The segments that `ikcp_recv` hands over. -/
def handed (kcp : Kcp) (len : Nat) : List Segment :=
  if 0 ≤ (kcp.ikcpRecv len).2.2 then (splitMessage kcp.rcvQueue).1 else []

/-- `ikcp_recv` does nothing, or it hands over the segments of a message and refills the queue. -/
theorem ikcpRecv_cases (kcp : Kcp) (len : Nat) :
    (kcp.ikcpRecv len = (kcp, [], (kcp.ikcpRecv len).2.2) ∧ kcp.handed len = [] ∧
        (kcp.ikcpRecv len).2.2 < 0) ∨
      ∃ probe, (kcp.ikcpRecv len).1 =
          { { kcp with rcvQueue := (splitMessage kcp.rcvQueue).2 }.refill with probe := probe } ∧
        (kcp.ikcpRecv len).2.1 = ((kcp.handed len).map Segment.data).flatten ∧
        kcp.handed len = (splitMessage kcp.rcvQueue).1 ∧ 0 ≤ kcp.ikcpPeeksize ∧
        0 ≤ (kcp.ikcpRecv len).2.2 := by
  unfold handed ikcpRecv
  split
  · exact .inl ⟨rfl, rfl, Int.negSucc_lt_zero 0⟩
  · split
    · exact .inl ⟨rfl, rfl, Int.negSucc_lt_zero 1⟩
    · rename_i hsize
      split
      · exact .inl ⟨rfl, rfl, Int.negSucc_lt_zero 2⟩
      · right
        dsimp only
        rw [if_pos (Int.natCast_nonneg _)]
        split
        · exact ⟨_, rfl, rfl, rfl, Int.not_lt.mp hsize, Int.natCast_nonneg _⟩
        · exact ⟨_, rfl, rfl, rfl, Int.not_lt.mp hsize, Int.natCast_nonneg _⟩

/-- What is at the head of the queue goes. -/
theorem ReceiveWindow.drop {kcp : Kcp} {r : Nat} {ms : List Nat} (h : kcp.ReceiveWindow r ms)
    {front rest : List Segment} (hqueue : kcp.rcvQueue = front ++ rest) :
    { kcp with rcvQueue := rest }.ReceiveWindow r ms := by
  obtain ⟨q, hq, hnumbers⟩ := h.rcvQueue_eq
  refine { h with rcvQueue_eq := ⟨q + front.length, ?_, ?_⟩ }
  · rw [hqueue, List.length_append] at hq
    show q + front.length + rest.length = r
    omega
  · rw [hqueue, List.map_append, List.length_append, ← List.range'_append_1, List.map_append] at hnumbers
    exact (List.append_inj hnumbers (by simp)).2

/-- `ikcp_recv` hands over the segments at the head of the queue, and refills the queue. -/
theorem ReceiveWindow.ikcpRecv {kcp : Kcp} {r : Nat} {ms : List Nat} (h : kcp.ReceiveWindow r ms)
    (len : Nat) :
    ∃ new, (∃ ms', (kcp.ikcpRecv len).1.ReceiveWindow (r + new.length) ms') ∧
      kcp.handed len ++ (kcp.ikcpRecv len).1.rcvQueue = kcp.rcvQueue ++ new ∧
      new.map Segment.sn = (List.range' r new.length).map (BitVec.ofNat 32) := by
  rcases kcp.ikcpRecv_cases len with ⟨hnone, hhanded, -⟩ | ⟨probe, hrun, -, hhanded, -⟩
  · rw [hnone, hhanded]
    exact ⟨[], ⟨ms, h⟩, (List.append_nil _).symm, rfl⟩
  · obtain ⟨new, harrived⟩ := (h.drop (splitMessage_append kcp.rcvQueue).symm).arrived_refill
    obtain ⟨ms', hwindow⟩ := harrived.window
    refine ⟨new, ⟨ms', ?_⟩, ?_, harrived.numbers⟩
    · rw [hrun]
      exact hwindow.congr rfl rfl rfl
    · rw [hrun, hhanded]
      show _ ++ Kcp.rcvQueue (Kcp.refill _) = _
      rw [harrived.rcvQueue_eq, ← List.append_assoc, splitMessage_append]

end Kcp

/-! ## Runs -/

namespace Ikcpcb

open Kcp (ReceiveWindow)

/-- The segments that a call hands over. -/
def handed (cb : Ikcpcb) : KcpCall → List Segment
  | .recv len => cb.kcp.handed len
  | _ => []

/-- The segments that are handed over along `cs`. -/
def handedAlong (cb : Ikcpcb) : List KcpCall → List Segment
  | [] => []
  | c :: cs => cb.handed c ++ handedAlong (cb.call c).1 cs

/-- A flush does not touch what was received. -/
theorem ikcpFlush_received (cb : Ikcpcb) :
    cb.ikcpFlush.1.rcvNxt = cb.rcvNxt ∧ cb.ikcpFlush.1.rcvBuf = cb.rcvBuf ∧
      cb.ikcpFlush.1.rcvQueue = cb.rcvQueue := by
  cases hupdated : cb.updated with
  | false =>
    rw [ikcpFlush_of_not_updated hupdated]
    exact ⟨rfl, rfl, rfl⟩
  | true =>
    obtain ⟨ssthresh, cwnd, incr, hflush⟩ := ikcpFlush_eq hupdated
    obtain ⟨new, rest, -, ⟨probeWait, tsProbe, hready⟩, -⟩ := cb.flushReady_eq
    rw [hflush, hready]
    exact ⟨rfl, rfl, rfl⟩

/-- Neither does an update. -/
theorem ikcpUpdate_received (cb : Ikcpcb) (current : BitVec 32) :
    (cb.ikcpUpdate current).1.rcvNxt = cb.rcvNxt ∧ (cb.ikcpUpdate current).1.rcvBuf = cb.rcvBuf ∧
      (cb.ikcpUpdate current).1.rcvQueue = cb.rcvQueue := by
  obtain ⟨tsFlush, hrun | hrun⟩ := cb.ikcpUpdate_cases current
  · rw [hrun]
    exact ⟨rfl, rfl, rfl⟩
  · rw [hrun]
    exact ikcpFlush_received _

/-- The bytes that are returned are those of the segments that are handed over. -/
theorem call_bytes (cb : Ikcpcb) (c : KcpCall) :
    (cb.call c).2.bytes = ((cb.handed c).map Segment.data).flatten := by
  cases c with
  | recv len =>
    show (cb.kcp.ikcpRecv len).2.1 = ((cb.kcp.handed len).map Segment.data).flatten
    rcases cb.kcp.ikcpRecv_cases len with ⟨hnone, hhanded, -⟩ | ⟨probe, -, hbytes, -⟩
    · rw [hnone, hhanded]
      rfl
    · exact hbytes
  | _ => rfl

/-- What `ikcp_recv` returns, if it does. -/
def returned (cb : Ikcpcb) : KcpCall → List (List UInt8)
  | .recv len => if 0 ≤ (cb.ikcpRecv len).2.2 then [(cb.ikcpRecv len).2.1] else []
  | _ => []

theorem returned_flatten (cb : Ikcpcb) (c : KcpCall) :
    (cb.returned c).flatten = ((cb.handed c).map Segment.data).flatten := by
  rw [← call_bytes]
  cases c with
  | recv len =>
    show (if 0 ≤ (cb.kcp.ikcpRecv len).2.2 then [(cb.kcp.ikcpRecv len).2.1] else []).flatten =
      (cb.kcp.ikcpRecv len).2.1
    split
    · exact List.flatten_singleton
    · rename_i hneg
      rcases cb.kcp.ikcpRecv_cases len with ⟨hnone, -⟩ | ⟨probe, -, hbytes, -⟩
      · rw [hnone]
        rfl
      · have hnothing : cb.kcp.handed len = [] := by
          unfold Kcp.handed
          rw [if_neg hneg]
        rw [hbytes, hnothing]
        rfl
  | _ => rfl

/-- Whatever is called and whatever comes in, the segments go to the queue one number after the
other. -/
theorem receiveWindow_call {cb : Ikcpcb} {r : Nat} {ms : List Nat} (h : cb.kcp.ReceiveWindow r ms)
    (c : KcpCall) :
    ∃ new, (∃ ms', (cb.call c).1.kcp.ReceiveWindow (r + new.length) ms') ∧
      cb.handed c ++ (cb.call c).1.rcvQueue = cb.rcvQueue ++ new ∧
      new.map Segment.sn = (List.range' r new.length).map (BitVec.ofNat 32) := by
  have hsame : ∀ cb' : Ikcpcb, cb'.rcvNxt = cb.rcvNxt → cb'.rcvBuf = cb.rcvBuf →
      cb'.rcvQueue = cb.rcvQueue →
      ∃ new : List Segment, (∃ ms', cb'.kcp.ReceiveWindow (r + new.length) ms') ∧
        [] ++ cb'.rcvQueue = cb.rcvQueue ++ new ∧
        new.map Segment.sn = (List.range' r new.length).map (BitVec.ofNat 32) := by
    intro cb' hnxt hbuf hqueue
    refine ⟨[], ⟨ms, h.congr hnxt hbuf hqueue⟩, ?_, rfl⟩
    rw [List.nil_append, List.append_nil, hqueue]
  cases c with
  | send buffer len => exact hsame _ rfl rfl rfl
  | recv len =>
    obtain ⟨new, ⟨ms', hwindow⟩, hqueue, hnumbers⟩ := h.ikcpRecv len
    refine ⟨new, ⟨ms', ?_⟩, hqueue, hnumbers⟩
    show (cb.ikcpRecv len).1.kcp.ReceiveWindow _ _
    rw [kcp_ikcpRecv]
    exact hwindow
  | input data =>
    obtain ⟨new, harrived⟩ := h.ikcpInput data
    obtain ⟨ms', hwindow⟩ := harrived.window
    have hstate := (cb.kcp_ikcpInput data).1
    refine ⟨new, ⟨ms', ?_⟩, ?_, harrived.numbers⟩
    · show (cb.ikcpInput data).1.kcp.ReceiveWindow _ _
      rw [hstate]
      exact hwindow
    · have hqueue := harrived.rcvQueue_eq
      rw [← hstate] at hqueue
      exact hqueue
  | update current =>
    obtain ⟨hnxt, hbuf, hqueue⟩ := cb.ikcpUpdate_received current
    exact hsame _ hnxt hbuf hqueue
  | flush =>
    obtain ⟨hnxt, hbuf, hqueue⟩ := cb.ikcpFlush_received
    exact hsame _ hnxt hbuf hqueue
  | setmtu mtu =>
    have h := traffic_ikcpSetmtu cb mtu
    exact hsame _ (congrArg Traffic.rcvNxt h) (congrArg Traffic.rcvBuf h) (congrArg Traffic.rcvQueue h)
  | wndsize sndwnd rcvwnd =>
    have h := traffic_ikcpWndsize cb sndwnd rcvwnd
    exact hsame _ (congrArg Traffic.rcvNxt h) (congrArg Traffic.rcvBuf h) (congrArg Traffic.rcvQueue h)
  | nodelay nodelay interval resend nc =>
    have h := traffic_ikcpNodelay cb nodelay interval resend nc
    exact hsame _ (congrArg Traffic.rcvNxt h) (congrArg Traffic.rcvBuf h) (congrArg Traffic.rcvQueue h)
  | interval interval => exact hsame _ rfl rfl rfl
  | minrto minrto => exact hsame _ rfl rfl rfl

theorem receiveWindow_driverCreate (conv : BitVec 32) (options : Options) :
    (driverCreate conv options).kcp.ReceiveWindow 0 [] := by
  have hempty := traffic_driverCreate conv options
  have hbuf : (driverCreate conv options).kcp.rcvBuf = [] := congrArg Traffic.rcvBuf hempty
  have hqueue : (driverCreate conv options).kcp.rcvQueue = [] := congrArg Traffic.rcvQueue hempty
  refine
    { rcvNxt_eq := congrArg Traffic.rcvNxt hempty
      sorted := .nil
      ahead := fun m hm => absurd hm List.not_mem_nil
      rcvBuf_eq := ?_
      rcvQueue_eq := ?_ }
  · rw [hbuf]
    rfl
  · rw [hqueue]
    exact ⟨0, rfl, rfl⟩

/-- What was handed over and what is in the queue are the numbers below `r`. -/
theorem handedAlong_numbers {cb : Ikcpcb} (before : List Segment) {r : Nat} {ms : List Nat}
    (h : cb.kcp.ReceiveWindow r ms)
    (hbefore : (before ++ cb.rcvQueue).map Segment.sn = (List.range r).map (BitVec.ofNat 32))
    (cs : List KcpCall) :
    ∃ r' ms', (transduce call cb cs).1.kcp.ReceiveWindow r' ms' ∧
      (before ++ cb.handedAlong cs ++ (transduce call cb cs).1.rcvQueue).map Segment.sn =
        (List.range r').map (BitVec.ofNat 32) ∧
      (transduce call cb cs).2.flatMap Answer.bytes =
        ((cb.handedAlong cs).map Segment.data).flatten := by
  induction cs generalizing cb before r ms with
  | nil => exact ⟨r, ms, h, by rw [handedAlong, List.append_nil]; exact hbefore, rfl⟩
  | cons c cs ih =>
    obtain ⟨new, ⟨ms', hwindow⟩, hqueue, hnumbers⟩ := receiveWindow_call h c
    have hbefore' : (before ++ cb.handed c ++ (cb.call c).1.rcvQueue).map Segment.sn =
        (List.range (r + new.length)).map (BitVec.ofNat 32) := by
      have hrange : List.range (r + new.length) = List.range r ++ List.range' r new.length := by
        have happend := List.range'_append_1 (s := 0) (m := r) (n := new.length)
        rw [Nat.zero_add] at happend
        rw [List.range_eq_range', List.range_eq_range', happend]
      rw [List.append_assoc, hqueue, ← List.append_assoc, List.map_append, hbefore, hnumbers, hrange,
        List.map_append]
    obtain ⟨r', ms'', hwindow', hrest, hanswers⟩ := ih _ hwindow hbefore'
    refine ⟨r', ms'', hwindow', ?_, ?_⟩
    · rw [handedAlong, ← List.append_assoc]
      exact hrest
    · rw [handedAlong, List.map_append, List.flatten_append, ← call_bytes, ← hanswers]
      rfl

/-- In every run, whatever the peer sends, the segments are handed over in the order of their
numbers, none twice and none left out: those that went to `rcv_queue` are the numbers below that
of `rcv_nxt`, what the buffer holds is sorted and further on, and the bytes that `ikcp_recv`
returned are those of the segments that were handed over. -/
theorem handed_in_order (conv : BitVec 32) (options : Options) (cs : List KcpCall) :
    let first := driverCreate conv options
    let cb := (transduce call first cs).1
    ∃ (r : Nat) (ms : List Nat),
      (first.handedAlong cs ++ cb.rcvQueue).map Segment.sn = (List.range r).map (BitVec.ofNat 32) ∧
      cb.rcvNxt = BitVec.ofNat 32 r ∧
      cb.rcvBuf.map Segment.sn = ms.map (BitVec.ofNat 32) ∧
      ms.Pairwise (· < ·) ∧ (∀ m ∈ ms, r ≤ m ∧ m < r + 2 ^ 31) ∧
      (transduce call first cs).2.flatMap Answer.bytes =
        ((first.handedAlong cs).map Segment.data).flatten := by
  intro first cb
  have hempty := traffic_driverCreate conv options
  have hqueue : first.rcvQueue = [] := congrArg Traffic.rcvQueue hempty
  obtain ⟨r, ms, h, hnumbers, hbytes⟩ := handedAlong_numbers []
    (receiveWindow_driverCreate conv options) (by rw [hqueue]; rfl) cs
  exact ⟨r, ms, hnumbers, h.rcvNxt_eq, h.rcvBuf_eq, h.sorted, h.ahead, hbytes⟩

end Ikcpcb

end Evlite
