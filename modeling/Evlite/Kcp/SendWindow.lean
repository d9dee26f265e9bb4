import Evlite.Kcp.ReceiveWindow

/-!
# The Window of What Is in Flight

The segments of `snd_buf` have the numbers they got from a flush, in their order, and none is
further than a window of 65535 segments behind `snd_nxt`. A peer may acknowledge whatever it
wants: this only makes segments go away, and `snd_una` is the number of the first one that is
left.

As on the receiving side, the numbers are those of a counter that does not wrap around: the
position of a segment among all that were numbered so far.

## Main results

- `sendWindow_call`: every call keeps the window, whatever comes in.
- `in_flight_window`: so it holds in every run, and what was accepted is what was numbered, then
  what is in the send queue.
-/

namespace Evlite

open Lib (transduce)
open Lib.Serial (ofNat_inj_of_close)

namespace Kcp

/-- The number of a segment in flight, and what it carries. -/
def flightOf (seg : Segment) : BitVec 32 × Option (Nat × List UInt8) := (seg.sn, some seg.payload)

/-- What was numbered `m`. -/
def sentAs (sent : List (Nat × List UInt8)) (m : Nat) : BitVec 32 × Option (Nat × List UInt8) :=
  (BitVec.ofNat 32 m, sent[m]?)

/-- The segments in flight are the numbers `ms` of all that were `sent`. -/
structure InFlight (kcp : Kcp) (sent : List (Nat × List UInt8)) (ms : List Nat) : Prop where
  sndNxt_eq : kcp.sndNxt = BitVec.ofNat 32 sent.length
  sorted : ms.Pairwise (· < ·)
  near : ∀ m ∈ ms, m < sent.length ∧ sent.length ≤ m + 65535
  sndBuf_eq : kcp.sndBuf.map flightOf = ms.map (sentAs sent)
  /-- The window of the peer is 16 bits wide on the wire. -/
  rmtWnd_lt : kcp.rmtWnd.toNat < 65536

/-- And `snd_una` is the first of them. -/
structure SendWindow (kcp : Kcp) (sent : List (Nat × List UInt8)) (ms : List Nat) : Prop
    extends kcp.InFlight sent ms where
  sndUna_eq : kcp.sndUna = BitVec.ofNat 32 (ms.headD sent.length)

/-! ## Acknowledgements -/

/-- `ikcp_shrink_buf` sets `snd_una`. -/
theorem InFlight.ikcpShrinkBuf {kcp : Kcp} {sent : List (Nat × List UInt8)} {ms : List Nat}
    (h : kcp.InFlight sent ms) : kcp.ikcpShrinkBuf.SendWindow sent ms := by
  have hbuf := h.sndBuf_eq
  unfold Kcp.ikcpShrinkBuf
  cases hsegs : kcp.sndBuf with
  | nil =>
    rw [hsegs, List.map_nil, eq_comm, List.map_eq_nil_iff] at hbuf
    subst hbuf
    exact { h with sndBuf_eq := rfl, sndUna_eq := h.sndNxt_eq }
  | cons seg segs =>
    cases ms with
    | nil =>
      rw [hsegs] at hbuf
      cases hbuf
    | cons m ms =>
      rw [hsegs] at hbuf
      have hhead := (List.cons.inj hbuf).1
      exact { h with sndBuf_eq := hbuf, sndUna_eq := congrArg Prod.fst hhead }

/-- What is left is a part of what was there. -/
theorem InFlight.sublist {kcp : Kcp} {sent : List (Nat × List UInt8)} {ms ms' : List Nat}
    (h : kcp.InFlight sent ms) (hms : ms'.Sublist ms) {segs : List Segment}
    (hsegs : segs.map flightOf = ms'.map (sentAs sent)) :
    { kcp with sndBuf := segs }.InFlight sent ms' :=
  { h with
    sorted := h.sorted.sublist hms
    near := fun m hm => h.near m (hms.subset hm)
    sndBuf_eq := hsegs }

/-- `ikcp_parse_una` drops what is before `una`. -/
theorem InFlight.ikcpParseUna {kcp : Kcp} {sent : List (Nat × List UInt8)} {ms : List Nat}
    (h : kcp.InFlight sent ms) (una : BitVec 32) :
    (kcp.ikcpParseUna una).InFlight sent
      (ms.dropWhile fun m => decide (0 < itimediff una (BitVec.ofNat 32 m))) := by
  apply h.sublist (List.dropWhile_sublist _)
  have hmap := congrArg
    (List.dropWhile fun x : BitVec 32 × Option (Nat × List UInt8) => decide (0 < itimediff una x.1))
    h.sndBuf_eq
  rwa [List.dropWhile_map, List.dropWhile_map] at hmap

/-- The numbers that are not before `u`. -/
theorem dropWhile_before {ms : List Nat} {u : Nat} (hsorted : ms.Pairwise (· < ·))
    (hclose : ∀ m ∈ ms, m ≤ u + 2 ^ 31 ∧ u < m + 2 ^ 31) :
    (ms.dropWhile fun m => decide (0 < itimediff (BitVec.ofNat 32 u) (BitVec.ofNat 32 m))) =
      ms.filter fun m => decide (u ≤ m) := by
  induction ms with
  | nil => rfl
  | cons m ms ih =>
    obtain ⟨hbelow, hsorted⟩ := List.pairwise_cons.mp hsorted
    have hm := hclose m List.mem_cons_self
    have hdiff : itimediff (BitVec.ofNat 32 u) (BitVec.ofNat 32 m) = (u : Int) - m :=
      itimediff_ofNat hm.1 hm.2
    by_cases hlt : m < u
    · rw [List.dropWhile_cons_of_pos (by rw [hdiff]; simpa using hlt),
        List.filter_cons_of_neg (by simpa using hlt)]
      exact ih hsorted fun n hn => hclose n (List.mem_cons_of_mem m hn)
    · -- all that follow are not before `u` either
      rw [List.dropWhile_cons_of_neg (by rw [hdiff]; simpa using hlt), eq_comm, List.filter_eq_self]
      intro n hn
      rcases List.mem_cons.mp hn with rfl | hn
      · simpa using hlt
      · have hmn := hbelow n hn
        simp only [decide_eq_true_eq]
        omega

/-- The loop of `ikcp_parse_ack` finds the number. -/
theorem dropAcked_flightOf {sent : List (Nat × List UInt8)} {n : Nat} {segs : List Segment}
    {ms : List Nat} (hsorted : ms.Pairwise (· < ·))
    (hclose : ∀ m ∈ ms, m < n + 2 ^ 31 ∧ n < m + 2 ^ 31)
    (hbuf : segs.map flightOf = ms.map (sentAs sent)) :
    (dropAcked (BitVec.ofNat 32 n) segs).map flightOf = (ms.erase n).map (sentAs sent) := by
  induction segs generalizing ms with
  | nil =>
    rw [List.map_nil, eq_comm, List.map_eq_nil_iff] at hbuf
    subst hbuf
    rfl
  | cons seg segs ih =>
    cases ms with
    | nil => cases hbuf
    | cons m ms =>
      have hall := hbuf
      rw [List.map_cons, List.map_cons, List.cons.injEq] at hbuf
      obtain ⟨hseg, hbuf⟩ := hbuf
      obtain ⟨hbelow, hsorted⟩ := List.pairwise_cons.mp hsorted
      have hm := hclose m List.mem_cons_self
      have hsn : seg.sn = BitVec.ofNat 32 m := congrArg Prod.fst hseg
      have hdiff : itimediff (BitVec.ofNat 32 n) seg.sn = (n : Int) - m := by
        rw [hsn]
        exact itimediff_ofNat (Nat.le_of_lt hm.1) hm.2
      unfold dropAcked
      split
      · -- the number is there
        rename_i hfound
        have heq : n = m := ofNat_inj_of_close (by omega) (by omega) (hfound.trans hsn)
        rw [heq, List.erase_cons_head]
        exact hbuf
      · rename_i hother
        have hne : m ≠ n := fun heq => hother (by rw [hsn, heq])
        split
        · -- the numbers from here on are larger
          rename_i hlater
          rw [hdiff] at hlater
          have hgone : n ∉ m :: ms := by
            intro hmem
            rcases List.mem_cons.mp hmem with heq | hmem
            · exact hne heq.symm
            · have hlt := hbelow n hmem
              omega
          rw [List.erase_of_not_mem hgone]
          exact hall
        · rw [List.erase_cons_tail (by simpa using hne), List.map_cons, List.map_cons, hseg,
            ih hsorted (fun k hk => hclose k (List.mem_cons_of_mem m hk)) hbuf]

/-- `ikcp_parse_ack` drops the segment with the number. -/
theorem SendWindow.ikcpParseAck {kcp : Kcp} {sent : List (Nat × List UInt8)} {ms : List Nat}
    (h : kcp.SendWindow sent ms) {n : Nat}
    (hclose : ∀ m ∈ ms, m < n + 2 ^ 31 ∧ n < m + 2 ^ 31) :
    (kcp.ikcpParseAck (BitVec.ofNat 32 n)).InFlight sent (ms.erase n) := by
  unfold Kcp.ikcpParseAck
  split
  · -- a number that is not in flight
    rename_i hout
    have hgone : n ∉ ms := by
      intro hmem
      have hn := h.near n hmem
      have hlast : itimediff (BitVec.ofNat 32 n) kcp.sndNxt = (n : Int) - sent.length := by
        rw [h.sndNxt_eq]
        exact itimediff_ofNat (by omega) (by omega)
      cases ms with
      | nil => cases hmem
      | cons m ms =>
        have hm := h.near m List.mem_cons_self
        have hfirst : itimediff (BitVec.ofNat 32 n) kcp.sndUna = (n : Int) - m := by
          rw [h.sndUna_eq]
          exact itimediff_ofNat (by show m ≤ _; omega) (by show _ < m + _; omega)
        have hle : m ≤ n := by
          rcases List.mem_cons.mp hmem with heq | hmem
          · exact Nat.le_of_eq heq.symm
          · exact Nat.le_of_lt ((List.pairwise_cons.mp h.sorted).1 n hmem)
        rw [hlast, hfirst] at hout
        omega
    rw [List.erase_of_not_mem hgone]
    exact h.toInFlight
  · exact h.toInFlight.sublist List.erase_sublist (dropAcked_flightOf h.sorted hclose h.sndBuf_eq)

/-- What a segment does to the sending side. -/
def acknowledge (kcp : Kcp) (p : Packet) : Kcp :=
  let kcp := ({ kcp with rmtWnd := BitVec.ofNat 32 p.head.wnd }.ikcpParseUna p.head.una).ikcpShrinkBuf
  if p.head.cmd = ikcpCmdAck then (kcp.ikcpParseAck p.head.sn).ikcpShrinkBuf else kcp

/-- The sending side is the same. -/
structure SameSender (kcp kcp' : Kcp) : Prop where
  sndUna_eq : kcp'.sndUna = kcp.sndUna
  sndNxt_eq : kcp'.sndNxt = kcp.sndNxt
  sndBuf_eq : kcp'.sndBuf = kcp.sndBuf
  rmtWnd_eq : kcp'.rmtWnd = kcp.rmtWnd

/-- Data and probes do not touch the sending side. -/
theorem sameSender_inputPacket (kcp : Kcp) (p : Packet) :
    (kcp.acknowledge p).SameSender (kcp.inputPacket p) := by
  unfold acknowledge inputPacket inputSegment
  generalize ({ kcp with rmtWnd := BitVec.ofNat 32 p.head.wnd }.ikcpParseUna
    p.head.una).ikcpShrinkBuf = kcp
  dsimp only
  split
  · exact ⟨rfl, rfl, rfl, rfl⟩
  · split
    · split
      · split
        · rw [Ikcpcb.parseData_frame]
          exact ⟨rfl, rfl, rfl, rfl⟩
        · exact ⟨rfl, rfl, rfl, rfl⟩
      · exact ⟨rfl, rfl, rfl, rfl⟩
    · split <;> exact ⟨rfl, rfl, rfl, rfl⟩

theorem SendWindow.congr {kcp kcp' : Kcp} {sent : List (Nat × List UInt8)} {ms : List Nat}
    (h : kcp.SendWindow sent ms) (hsame : kcp.SameSender kcp') : kcp'.SendWindow sent ms where
  sndNxt_eq := hsame.sndNxt_eq.trans h.sndNxt_eq
  sorted := h.sorted
  near := h.near
  sndBuf_eq := by rw [hsame.sndBuf_eq, h.sndBuf_eq]
  rmtWnd_lt := by rw [hsame.rmtWnd_eq]; exact h.rmtWnd_lt
  sndUna_eq := hsame.sndUna_eq.trans h.sndUna_eq

/-- What is left after `una`, and the window of the peer. -/
theorem SendWindow.start {kcp : Kcp} {sent : List (Nat × List UInt8)} {ms : List Nat}
    (h : kcp.SendWindow sent ms) {wnd : Nat} (hwnd : wnd < 65536) (una : BitVec 32) :
    ({ kcp with rmtWnd := BitVec.ofNat 32 wnd }.ikcpParseUna una).ikcpShrinkBuf.SendWindow sent
      (ms.dropWhile fun m => decide (0 < itimediff una (BitVec.ofNat 32 m))) := by
  have hstart : { kcp with rmtWnd := BitVec.ofNat 32 wnd }.InFlight sent ms :=
    { h.toInFlight with rmtWnd_lt := by rw [BitVec.toNat_ofNat]; omega }
  exact (hstart.ikcpParseUna una).ikcpShrinkBuf

/-- Whatever a peer acknowledges, segments go away at most. -/
theorem SendWindow.inputPacket {kcp : Kcp} {sent : List (Nat × List UInt8)} {ms : List Nat}
    (h : kcp.SendWindow sent ms) {p : Packet} (hp : p.head.wnd < 65536) :
    ∃ ms', ms'.Sublist ms ∧ (kcp.inputPacket p).SendWindow sent ms' := by
  have hstart := h.start hp p.head.una
  suffices hack : ∃ ms', ms'.Sublist ms ∧ (kcp.acknowledge p).SendWindow sent ms' by
    obtain ⟨ms', hsub, h'⟩ := hack
    exact ⟨ms', hsub, h'.congr (kcp.sameSender_inputPacket p)⟩
  have hsub := List.dropWhile_sublist (l := ms) fun m =>
    decide (0 < itimediff p.head.una (BitVec.ofNat 32 m))
  unfold acknowledge
  generalize ({ kcp with rmtWnd := BitVec.ofNat 32 p.head.wnd }.ikcpParseUna
    p.head.una).ikcpShrinkBuf = kcp' at hstart ⊢
  generalize (ms.dropWhile fun m => decide (0 < itimediff p.head.una (BitVec.ofNat 32 m))) = left
    at hstart hsub
  dsimp only
  split
  · -- the number that is meant is the one from `snd_una` on
    obtain ⟨n, hlow, -, hsn, hhigh⟩ := exists_ofNat_from p.head.sn (left.headD sent.length)
    by_cases hbefore : itimediff p.head.sn kcp'.sndUna < 0
    · have hnone : kcp'.ikcpParseAck p.head.sn = kcp' := by
        unfold Kcp.ikcpParseAck
        rw [if_pos (.inl hbefore)]
      rw [hnone]
      exact ⟨left, hsub, hstart.toInFlight.ikcpShrinkBuf⟩
    · rw [hstart.sndUna_eq] at hbefore
      have hn := hhigh (Int.not_lt.mp hbefore)
      rw [hsn]
      refine ⟨left.erase n, List.erase_sublist.trans hsub,
        (hstart.ikcpParseAck fun m hm => ?_).ikcpShrinkBuf⟩
      have hnear := hstart.near m hm
      cases hleft : left with
      | nil =>
        rw [hleft] at hm
        cases hm
      | cons first rest =>
        rw [hleft, List.headD_cons] at hlow hn
        rw [hleft] at hm
        have hfirst := hstart.near first (by rw [hleft]; exact List.mem_cons_self)
        have hle : first ≤ m := by
          rcases List.mem_cons.mp hm with heq | hm
          · exact Nat.le_of_eq heq.symm
          · have hsorted := hstart.sorted
            rw [hleft] at hsorted
            exact Nat.le_of_lt ((List.pairwise_cons.mp hsorted).1 m hm)
        omega
  · exact ⟨left, hsub, hstart⟩

/-- Whatever comes in. -/
theorem SendWindow.ikcpInput {kcp : Kcp} {sent : List (Nat × List UInt8)} {ms : List Nat}
    (h : kcp.SendWindow sent ms) (data : List UInt8) :
    ∃ ms', ms'.Sublist ms ∧ (kcp.ikcpInput data).1.SendWindow sent ms' := by
  have hloop : ∀ (ps : List Packet), (∀ p ∈ ps, p.head.wnd < 65536) → ∀ {kcp : Kcp} {ms : List Nat},
      kcp.SendWindow sent ms →
      ∃ ms', ms'.Sublist ms ∧ (ps.foldl Kcp.inputPacket kcp).SendWindow sent ms' := by
    intro ps
    induction ps with
    | nil => exact fun _ {kcp ms} h => ⟨ms, List.Sublist.refl ms, h⟩
    | cons p ps ih =>
      intro hps kcp ms h
      obtain ⟨ms', hsub, h'⟩ := h.inputPacket (hps p List.mem_cons_self)
      obtain ⟨ms'', hsub', h''⟩ := ih (fun q hq => hps q (List.mem_cons_of_mem p hq)) h'
      exact ⟨ms'', hsub'.trans hsub, h''⟩
  unfold Kcp.ikcpInput
  split
  · exact ⟨ms, List.Sublist.refl ms, h⟩
  · rw [inputLoop_eq]
    -- the window that is read is 16 bits wide
    exact hloop _ (fun p hp => ((parseDatagram_reads kcp.conv data).1 p hp).wnd_lt) h

end Kcp

namespace Ikcpcb

open Kcp (SendWindow flightOf sentAs)

/-! ## Numbering -/

theorem numberFrom_flightOf (cb : Ikcpcb) (sent : List (Nat × List UInt8)) (new : List Segment) :
    ((cb.numberFrom (BitVec.ofNat 32 sent.length) new).map SentSegment.toSegment).map flightOf =
      (List.range' sent.length new.length).map (sentAs (sent ++ new.map Segment.payload)) := by
  induction new generalizing sent with
  | nil => rfl
  | cons newseg new ih =>
    have hnext := ih (sent ++ [newseg.payload])
    rw [List.length_append, List.length_singleton, BitVec.ofNat_add] at hnext
    have hfirst : flightOf (cb.newSegment (BitVec.ofNat 32 sent.length) newseg).toSegment =
        sentAs (sent ++ (newseg :: new).map Segment.payload) sent.length := by
      unfold flightOf sentAs
      rw [List.map_cons, List.getElem?_append_right (Nat.le_refl _), Nat.sub_self,
        List.getElem?_cons_zero]
      rfl
    rw [numberFrom, List.map_cons, List.map_cons, List.length_cons, List.range'_succ, List.map_cons,
      hfirst]
    rw [List.append_assoc, List.singleton_append] at hnext
    exact congrArg _ hnext

theorem flushWindow_le (cb : Ikcpcb) : cb.flushWindow.toNat ≤ cb.rmtWnd.toNat := by
  have hmin : ∀ a b : BitVec 32, (imin a b).toNat ≤ b.toNat := by
    intro a b
    unfold imin
    split
    · rename_i hle
      exact BitVec.le_def.mp hle
    · exact Nat.le_refl _
  unfold flushWindow
  dsimp only
  split
  · exact Nat.le_trans (hmin _ _) (hmin _ _)
  · exact hmin _ _

/-- A flush numbers no more than the window of the peer allows. -/
theorem flush_numbers {cb : Ikcpcb} {sent : List (Nat × List UInt8)} {ms : List Nat}
    (h : cb.kcp.SendWindow sent ms) {k : Nat}
    (hlimit : ∀ i < k,
      itimediff (cb.sndNxt + BitVec.ofNat 32 i) (cb.sndUna + cb.flushWindow) < 0) :
    k = 0 ∨ sent.length + k ≤ ms.headD sent.length + 65535 := by
  have hnxt : cb.sndNxt = BitVec.ofNat 32 sent.length := h.sndNxt_eq
  have huna : cb.sndUna = BitVec.ofNat 32 (ms.headD sent.length) := h.sndUna_eq
  have hwindow : cb.flushWindow.toNat < 65536 := Nat.lt_of_le_of_lt cb.flushWindow_le h.rmtWnd_lt
  have hfirst : ms.headD sent.length ≤ sent.length ∧ sent.length ≤ ms.headD sent.length + 65535 := by
    cases ms with
    | nil => exact ⟨Nat.le_refl _, Nat.le_add_right _ _⟩
    | cons m ms => exact (h.near m List.mem_cons_self).imp_left Nat.le_of_lt
  have hsum : cb.sndUna + cb.flushWindow =
      BitVec.ofNat 32 (ms.headD sent.length + cb.flushWindow.toNat) := by
    rw [huna, BitVec.ofNat_add, BitVec.ofNat_toNat, BitVec.setWidth_eq]
  generalize ms.headD sent.length = u at *
  generalize cb.flushWindow.toNat = w at *
  -- the numbers up to the end of the window are compared as they are
  have hclose : ∀ i, i < k → sent.length + i ≤ u + w → sent.length + i < u + w := by
    intro i hi hle
    have hneg := hlimit i hi
    rw [hnxt, hsum, ← BitVec.ofNat_add, itimediff_ofNat (by omega) (by omega)] at hneg
    omega
  by_cases hzero : k = 0
  · exact .inl hzero
  · right
    by_cases hbehind : sent.length ≤ u + w
    · by_cases hmany : u + w - sent.length < k
      · have hlast := hclose _ hmany (by omega)
        omega
      · omega
    · -- the window of the peer has become smaller
      have hneg := hlimit 0 (by omega)
      rw [hnxt, hsum, ← BitVec.ofNat_add, itimediff_ofNat (by omega) (by omega)] at hneg
      omega

/-- A flush numbers a beginning of the send queue, and all of it stays in flight. -/
theorem sendWindow_ikcpFlush {cb : Ikcpcb} {sent : List (Nat × List UInt8)} {ms : List Nat}
    (h : cb.kcp.SendWindow sent ms) :
    ∃ new, cb.sndQueue = new ++ cb.ikcpFlush.1.sndQueue ∧
      cb.ikcpFlush.1.kcp.SendWindow (sent ++ new.map Segment.payload)
        (ms ++ List.range' sent.length new.length) := by
  cases hupdated : cb.updated with
  | false =>
    rw [ikcpFlush_of_not_updated hupdated]
    refine ⟨[], rfl, ?_⟩
    rw [List.map_nil, List.append_nil, List.length_nil, List.range'_zero, List.append_nil]
    exact h
  | true =>
    obtain ⟨ssthresh, cwnd, incr, hflush⟩ := ikcpFlush_eq hupdated
    obtain ⟨new, rest, hqueue, ⟨probeWait, tsProbe, hready⟩, hlimit⟩ := cb.flushReady_eq
    have hmany := flush_numbers h hlimit
    have hnear : ∀ m ∈ ms, ms.headD sent.length ≤ m := by
      intro m hm
      cases ms with
      | nil => cases hm
      | cons first ms =>
        rcases List.mem_cons.mp hm with heq | hm
        · exact Nat.le_of_eq heq.symm
        · exact Nat.le_of_lt ((List.pairwise_cons.mp h.sorted).1 m hm)
    have hsmall : ms.headD sent.length ≤ sent.length := by
      cases ms with
      | nil => exact Nat.le_refl _
      | cons first ms => exact Nat.le_of_lt (h.near first List.mem_cons_self).1
    have hlength : (sent ++ new.map Segment.payload).length = sent.length + new.length := by
      rw [List.length_append, List.length_map]
    rw [hflush]
    refine ⟨new, by rw [hready]; exact hqueue, ?_⟩
    refine
      { sndNxt_eq := ?_
        sorted := ?_
        near := ?_
        sndBuf_eq := ?_
        rmtWnd_lt := ?_
        sndUna_eq := ?_ }
    · show cb.flushReady.sndNxt = _
      rw [hready, hlength, BitVec.ofNat_add]
      exact congrArg (· + BitVec.ofNat 32 new.length) h.sndNxt_eq
    · rw [List.pairwise_append]
      refine ⟨h.sorted, List.pairwise_lt_range', fun m hm n hn => ?_⟩
      have hlow := (List.mem_range'_1.mp hn).1
      have hhigh := (h.near m hm).1
      omega
    · intro m hm
      rw [hlength]
      rcases List.mem_append.mp hm with hm | hm
      · have hle := hnear m hm
        have hold := h.near m hm
        omega
      · have hrange := List.mem_range'_1.mp hm
        omega
    · -- the loop over `snd_buf` does not touch what is sent
      have hfixed := congrArg (List.map fun f : BitVec 32 × Segment => flightOf f.2)
        cb.flushReady.fixed_flushSndBuf
      rw [List.map_map, List.map_map] at hfixed
      have hold : ms.map (sentAs (sent ++ new.map Segment.payload)) = ms.map (sentAs sent) := by
        apply List.map_congr_left
        intro m hm
        unfold sentAs
        rw [List.getElem?_append_left (h.near m hm).1]
      have hnumber := cb.numberFrom_flightOf sent new
      rw [← h.sndNxt_eq] at hnumber
      show (cb.flushReady.flushSndBuf.sndBuf.map SentSegment.toSegment).map flightOf = _
      rw [List.map_map]
      refine Eq.trans hfixed ?_
      rw [hready]
      show List.map _ (cb.sndBuf ++ cb.numberFrom cb.sndNxt new) = _
      rw [List.map_append, List.map_append, hold, ← h.sndBuf_eq, ← hnumber]
      rw [kcp_sndBuf, List.map_map, List.map_map]
      rfl
    · show cb.flushReady.rmtWnd.toNat < 65536
      rw [hready]
      exact h.rmtWnd_lt
    · show cb.flushReady.sndUna = _
      rw [hready]
      refine h.sndUna_eq.trans (congrArg _ ?_)
      cases ms with
      | nil =>
        rw [List.nil_append, hlength]
        cases new with
        | nil => rfl
        | cons newseg new => rw [List.length_cons, List.range'_succ]; rfl
      | cons first ms => rfl

/-! ## Calls -/

/-- What left the send queue. -/
def dequeued (cb cb' : Ikcpcb) : List (Nat × List UInt8) :=
  (cb.sndQueue.take (cb.sndQueue.length - cb'.sndQueue.length)).map Segment.payload

/-- What a call numbers. -/
def numbered (cb : Ikcpcb) : KcpCall → List (Nat × List UInt8)
  | .update current => cb.dequeued (cb.ikcpUpdate current).1
  | .flush => cb.dequeued cb.ikcpFlush.1
  | _ => []

/-- What is numbered along `cs`. -/
def numberedAlong (cb : Ikcpcb) : List KcpCall → List (Nat × List UInt8)
  | [] => []
  | c :: cs => cb.numbered c ++ numberedAlong (cb.call c).1 cs

/-- The payload that `ikcp_send` says it has taken. -/
def accepted (cb : Ikcpcb) : KcpCall → List (List UInt8)
  | .send buffer len =>
    if 0 ≤ (cb.ikcpSend buffer len).2 then [buffer.take (cb.ikcpSend buffer len).2.toNat] else []
  | _ => []

/-- The payloads that are accepted along `cs`. -/
def acceptedAlong (cb : Ikcpcb) : List KcpCall → List (List UInt8)
  | [] => []
  | c :: cs => cb.accepted c ++ acceptedAlong (cb.call c).1 cs

theorem dequeued_eq (cb : Ikcpcb) {cb' : Ikcpcb} {new : List Segment} (h : cb.sndQueue = new ++ cb'.sndQueue) :
    cb.dequeued cb' = new.map Segment.payload := by
  unfold dequeued
  have hlength : cb.sndQueue.length - cb'.sndQueue.length = new.length := by
    rw [h, List.length_append, Nat.add_sub_cancel]
  rw [hlength, h, List.take_left]

/-- `ikcp_send` takes no more than the buffer holds. -/
theorem ikcpSend_min (kcp : Kcp) (buffer : List UInt8) {len : Int} (hlen : 0 ≤ len) :
    kcp.ikcpSend buffer len = kcp.ikcpSend buffer (min len.toNat buffer.length : Nat) := by
  have htake : buffer.take (min len.toNat buffer.length) = buffer.take len.toNat := by
    rw [← List.take_take, List.take_length]
  unfold Kcp.ikcpSend
  rw [if_neg (Int.not_lt.mpr hlen), if_neg (Int.not_lt.mpr (Int.natCast_nonneg _)),
    Int.toNat_natCast, htake]

/-- What `ikcp_send` accepts is what it appends to the send queue. -/
theorem sndQueue_accepted (cb : Ikcpcb) (buffer : List UInt8) (len : Int) :
    ((cb.ikcpSend buffer len).1.sndQueue.map Segment.data).flatten =
      (cb.sndQueue.map Segment.data).flatten ++ (cb.accepted (.send buffer len)).flatten := by
  have hflight : (cb.kcp.ikcpSend buffer len).1.sndBuf = cb.kcp.sndBuf := by
    rw [send_frame]
  suffices hbytes : (cb.kcp.ikcpSend buffer len).1.outgoing =
      cb.kcp.outgoing ++ (cb.accepted (.send buffer len)).flatten by
    unfold Kcp.outgoing at hbytes
    rw [hflight, List.map_append, List.flatten_append, List.map_append, List.flatten_append,
      List.append_assoc] at hbytes
    exact List.append_cancel_left hbytes
  have haccepted : cb.accepted (.send buffer len) =
      if 0 ≤ (cb.kcp.ikcpSend buffer len).2 then [buffer.take (cb.kcp.ikcpSend buffer len).2.toNat]
      else [] := rfl
  rw [haccepted]
  by_cases hneg : len < 0
  · have hrefused : cb.kcp.ikcpSend buffer len = (cb.kcp, -1) := by
      unfold Kcp.ikcpSend
      rw [if_pos hneg]
    rw [hrefused]
    exact (List.append_nil _).symm
  · rw [ikcpSend_min cb.kcp buffer (Int.not_lt.mp hneg)]
    have hnat : ∀ n : Nat, (0 : Int) ≤ n := Int.natCast_nonneg
    rcases cb.kcp.ikcpSend_cases buffer (min len.toNat buffer.length) (Nat.min_le_right _ _) with
      ⟨-, hrc, hbytes⟩ | ⟨-, -, hrc, hbytes⟩ | ⟨-, -, hrun⟩
    · rw [hrc, if_pos (hnat _), hbytes, Int.toNat_natCast, List.flatten_singleton]
    · rw [hrc, if_pos (hnat _), hbytes, Int.toNat_natCast, List.flatten_singleton]
    · rw [hrun]
      exact (List.append_nil _).symm

/-- What is called numbers segments, and all of them stay in flight. -/
theorem sendWindow_numbered {cb : Ikcpcb} {sent : List (Nat × List UInt8)} {ms : List Nat}
    (h : cb.kcp.SendWindow sent ms) {c : KcpCall} (hc : c.isInput = false) :
    (cb.call c).1.kcp.SendWindow (sent ++ cb.numbered c)
      (ms ++ List.range' sent.length (cb.numbered c).length) := by
  have hsame : ∀ cb' : Ikcpcb, cb'.kcp.sndUna = cb.kcp.sndUna → cb'.kcp.sndNxt = cb.kcp.sndNxt →
      cb'.kcp.sndBuf = cb.kcp.sndBuf → cb'.kcp.rmtWnd = cb.kcp.rmtWnd →
      cb'.kcp.SendWindow (sent ++ []) (ms ++ []) := by
    intro cb' huna hnxt hbuf hwnd
    rw [List.append_nil, List.append_nil]
    exact h.congr ⟨huna, hnxt, hbuf, hwnd⟩
  have hoptions : ∀ cb' : Ikcpcb, cb'.traffic = cb.traffic →
      cb'.kcp.SendWindow (sent ++ []) (ms ++ []) := by
    intro cb' htraffic
    have hbuf : cb'.sndBuf = cb.sndBuf := congrArg Traffic.sndBuf htraffic
    apply hsame cb' (congrArg Traffic.sndUna htraffic) (congrArg Traffic.sndNxt htraffic) ?_
      (congrArg Traffic.rmtWnd htraffic)
    rw [kcp_sndBuf, kcp_sndBuf, hbuf]
  have hflush : ∀ cb : Ikcpcb, cb.kcp.SendWindow sent ms →
      cb.ikcpFlush.1.kcp.SendWindow (sent ++ cb.dequeued cb.ikcpFlush.1)
        (ms ++ List.range' sent.length (cb.dequeued cb.ikcpFlush.1).length) := by
    intro cb h
    obtain ⟨new, hqueue, hwindow⟩ := sendWindow_ikcpFlush h
    rw [cb.dequeued_eq hqueue, List.length_map]
    exact hwindow
  cases c with
  | send buffer len => exact hsame _ rfl rfl rfl rfl
  | recv len => exact hsame _ rfl rfl rfl rfl
  | input data => cases hc
  | update current =>
    show (cb.ikcpUpdate current).1.kcp.SendWindow (sent ++ cb.dequeued (cb.ikcpUpdate current).1)
      (ms ++ List.range' sent.length (cb.dequeued (cb.ikcpUpdate current).1).length)
    obtain ⟨tsFlush, hrun | hrun⟩ := cb.ikcpUpdate_cases current
    · have hkept : cb.dequeued { cb with current := current, updated := true, tsFlush := tsFlush } = [] :=
        @dequeued_eq cb _ [] rfl
      rw [hrun, hkept]
      exact hsame _ rfl rfl rfl rfl
    · have h' : Kcp.SendWindow
          ({ cb with current := current, updated := true, tsFlush := tsFlush } : Ikcpcb).kcp sent ms :=
        h.congr ⟨rfl, rfl, rfl, rfl⟩
      rw [hrun]
      exact hflush _ h'
  | flush => exact hflush cb h
  | setmtu mtu => exact hoptions _ (traffic_ikcpSetmtu cb mtu)
  | wndsize sndwnd rcvwnd => exact hoptions _ (traffic_ikcpWndsize cb sndwnd rcvwnd)
  | nodelay nodelay interval resend nc => exact hoptions _ (traffic_ikcpNodelay cb nodelay interval resend nc)
  | interval interval => exact hoptions _ rfl
  | minrto minrto => exact hoptions _ rfl

/-- Whatever is called and whatever comes in, the segments in flight stay a window of what was
numbered. -/
theorem sendWindow_call {cb : Ikcpcb} {sent : List (Nat × List UInt8)} {ms : List Nat}
    (h : cb.kcp.SendWindow sent ms) (c : KcpCall) :
    ∃ ms', (cb.call c).1.kcp.SendWindow (sent ++ cb.numbered c) ms' := by
  cases hc : c.isInput with
  | false => exact ⟨_, sendWindow_numbered h hc⟩
  | true =>
    cases c with
    | input data =>
      obtain ⟨ms', -, hwindow⟩ := h.ikcpInput data
      refine ⟨ms', ?_⟩
      show (cb.ikcpInput data).1.kcp.SendWindow (sent ++ []) ms'
      rw [List.append_nil, (cb.kcp_ikcpInput data).1]
      exact hwindow
    | _ => cases hc

/-- A flush takes from the send queue what it numbers. -/
theorem ikcpFlush_dequeued (cb : Ikcpcb) :
    cb.dequeued cb.ikcpFlush.1 ++ cb.ikcpFlush.1.sndQueue.map Segment.payload =
      cb.sndQueue.map Segment.payload := by
  have hqueue : ∃ new, cb.sndQueue = new ++ cb.ikcpFlush.1.sndQueue := by
    cases hupdated : cb.updated with
    | false =>
      rw [ikcpFlush_of_not_updated hupdated]
      exact ⟨[], rfl⟩
    | true =>
      obtain ⟨ssthresh, cwnd, incr, hflush⟩ := ikcpFlush_eq hupdated
      obtain ⟨new, rest, hqueue, ⟨probeWait, tsProbe, hready⟩, -⟩ := cb.flushReady_eq
      rw [hflush, hready]
      exact ⟨new, hqueue⟩
  obtain ⟨new, hqueue⟩ := hqueue
  rw [cb.dequeued_eq hqueue, ← List.map_append, ← hqueue]

/-- What is numbered is taken from the send queue, which only `ikcp_send` appends to. -/
theorem numbered_sndQueue (cb : Ikcpcb) (c : KcpCall) :
    cb.numbered c ++ (cb.call c).1.sndQueue.map Segment.payload =
      match c with
      | .send buffer len => (cb.ikcpSend buffer len).1.sndQueue.map Segment.payload
      | _ => cb.sndQueue.map Segment.payload := by
  have hoptions : ∀ cb' : Ikcpcb, cb'.traffic = cb.traffic →
      [] ++ cb'.sndQueue.map Segment.payload = cb.sndQueue.map Segment.payload := by
    intro cb' htraffic
    rw [List.nil_append, show cb'.sndQueue = cb.sndQueue from congrArg Traffic.sndQueue htraffic]
  cases c with
  | send buffer len => rfl
  | recv len => rfl
  | input data =>
    show [] ++ (cb.ikcpInput data).1.sndQueue.map Segment.payload = _
    rw [(cb.drops_ikcpInput data).sndQueue_eq]
    rfl
  | update current =>
    show cb.dequeued (cb.ikcpUpdate current).1 ++
      (cb.ikcpUpdate current).1.sndQueue.map Segment.payload = _
    obtain ⟨tsFlush, hrun | hrun⟩ := cb.ikcpUpdate_cases current
    · have hkept : cb.dequeued { cb with current := current, updated := true, tsFlush := tsFlush } = [] :=
        @dequeued_eq cb _ [] rfl
      rw [hrun, hkept]
      rfl
    · rw [hrun]
      exact ikcpFlush_dequeued { cb with current := current, updated := true, tsFlush := tsFlush }
  | flush => exact cb.ikcpFlush_dequeued
  | setmtu mtu => exact hoptions _ (traffic_ikcpSetmtu cb mtu)
  | wndsize sndwnd rcvwnd => exact hoptions _ (traffic_ikcpWndsize cb sndwnd rcvwnd)
  | nodelay nodelay interval resend nc => exact hoptions _ (traffic_ikcpNodelay cb nodelay interval resend nc)
  | interval interval => rfl
  | minrto minrto => rfl

/-- What is numbered was in the send queue. -/
theorem numbered_sublist (cb : Ikcpcb) (c : KcpCall) :
    (cb.numbered c).Sublist (cb.sndQueue.map Segment.payload) := by
  have hdequeued : ∀ cb' : Ikcpcb, (cb.dequeued cb').Sublist (cb.sndQueue.map Segment.payload) :=
    fun cb' => (List.take_sublist _ _).map _
  cases c with
  | update current => exact hdequeued _
  | flush => exact hdequeued _
  | _ => exact List.nil_sublist _

/-- What is accepted is numbered, or in the send queue, in its order. -/
theorem numbered_accepted (cb : Ikcpcb) (c : KcpCall) :
    ((cb.numbered c).map Prod.snd).flatten ++ ((cb.call c).1.sndQueue.map Segment.data).flatten =
      (cb.sndQueue.map Segment.data).flatten ++ (cb.accepted c).flatten := by
  have hdata : ∀ segs : List Segment, (segs.map Segment.payload).map Prod.snd = segs.map Segment.data :=
    fun segs => List.map_map
  have hqueue := congrArg (fun l => (l.map Prod.snd).flatten) (cb.numbered_sndQueue c)
  rw [List.map_append, List.flatten_append, hdata] at hqueue
  rw [hqueue]
  cases c with
  | send buffer len => exact (congrArg List.flatten (hdata _)).trans (cb.sndQueue_accepted buffer len)
  | _ => exact (congrArg List.flatten (hdata _)).trans (List.append_nil _).symm

theorem sendWindow_driverCreate (conv : BitVec 32) (options : Options) :
    (driverCreate conv options).kcp.SendWindow [] [] := by
  have hempty := traffic_driverCreate conv options
  have hbuf : (driverCreate conv options).sndBuf = [] := congrArg Traffic.sndBuf hempty
  exact
    { sndNxt_eq := congrArg Traffic.sndNxt hempty
      sorted := .nil
      near := fun m hm => absurd hm List.not_mem_nil
      sndBuf_eq := by rw [kcp_sndBuf, hbuf]; rfl
      rmtWnd_lt := by
        rw [kcp_rmtWnd,
          show (driverCreate conv options).rmtWnd = 128 from congrArg Traffic.rmtWnd hempty]
        decide
      sndUna_eq := congrArg Traffic.sndUna hempty }

/-- What was accepted along `cs`. -/
theorem numberedAlong_window {cb : Ikcpcb} {sent : List (Nat × List UInt8)} {ms : List Nat}
    (h : cb.kcp.SendWindow sent ms) (cs : List KcpCall) :
    (∃ ms', (transduce call cb cs).1.kcp.SendWindow (sent ++ cb.numberedAlong cs) ms') ∧
      (cb.sndQueue.map Segment.data).flatten ++ (cb.acceptedAlong cs).flatten =
        ((cb.numberedAlong cs).map Prod.snd).flatten ++
          ((transduce call cb cs).1.sndQueue.map Segment.data).flatten := by
  induction cs generalizing cb sent ms with
  | nil =>
    refine ⟨⟨ms, ?_⟩, ?_⟩
    · rw [numberedAlong, List.append_nil]
      exact h
    · rw [acceptedAlong, List.flatten_nil, List.append_nil]
      rfl
  | cons c cs ih =>
    obtain ⟨ms', hwindow⟩ := sendWindow_call h c
    have hone := cb.numbered_accepted c
    obtain ⟨hrest, hbytes⟩ := ih hwindow
    refine ⟨?_, ?_⟩
    · rw [numberedAlong, ← List.append_assoc]
      exact hrest
    · rw [acceptedAlong, List.flatten_append, ← List.append_assoc, ← hone, List.append_assoc, hbytes,
        numberedAlong, List.map_append, List.flatten_append, List.append_assoc]
      rfl

end Ikcpcb

end Evlite
