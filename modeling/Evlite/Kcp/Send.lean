import Evlite.Kcp.State

/-!
# Sending with KCP

`ikcp_send` cuts a payload into segments of at most `mss` bytes and appends them to
`snd_queue`. In stream mode it first fills up the last segment that is still there. A payload
that needs 128 segments or more is refused, but in stream mode the bytes that went into the
last segment are kept then, and their number is returned.

`ikcp_flush` moves segments from `snd_queue` to `snd_buf` as far as the windows allow, and
`ikcp_update` does so when it is time.

## Main results

- `ikcpSend_whole`: a payload that fits is taken as a whole.
- `ikcpSend_part`: one that does not, but meets a last segment with room, in part.
- `ikcpSend_refused`: and any other is refused.
-/

namespace Evlite

namespace Kcp

/-! ## Sending -/

/-- `old->len < kcp->mss`, in stream mode: the last segment of `snd_queue`, if it has room. -/
def streamTail (kcp : Kcp) : Option Segment :=
  if kcp.stream then
    match kcp.sndQueue.getLast? with
    | some old => if old.len < kcp.mss then some old else none
    | none => none
  else none

/-- The number of fragments `ikcp_send` makes of `len` bytes. -/
def fragmentCount (kcp : Kcp) (len : Nat) : Nat :=
  if len ≤ kcp.mss then 1 else (len + kcp.mss - 1) / kcp.mss

/-- The loop of `ikcp_send` that makes `count` fragments. -/
def fragments (kcp : Kcp) : Nat → List UInt8 → List Segment
  | 0, _ => []
  | count + 1, buffer =>
    { frg := if kcp.stream then 0 else count, data := buffer.take kcp.mss } ::
      fragments kcp count (buffer.drop kcp.mss)

/-- `ikcp_send` after the last segment was filled up with `sent` bytes. -/
def sendFragments (kcp : Kcp) (buffer : List UInt8) (sent : Nat) : Kcp × Int :=
  let count := kcp.fragmentCount buffer.length
  if ikcpWndRcv ≤ count then
    if kcp.stream ∧ 0 < sent then (kcp, sent) else (kcp, -2)
  else
    let count := if count = 0 then 1 else count
    ({ kcp with sndQueue := kcp.sndQueue ++ kcp.fragments count buffer }, sent + buffer.length)

/-- Replace the last segment `old` of `snd_queue` by one that holds `bytes` as well. -/
def fillTail (kcp : Kcp) (old : Segment) (bytes : List UInt8) : Kcp :=
  { kcp with
    sndQueue := kcp.sndQueue.dropLast ++ [{ old with data := old.data ++ bytes, frg := 0 }] }

/-- `ikcp_send` of the first `len` bytes of `buffer` -/
def ikcpSend (kcp : Kcp) (buffer : List UInt8) (len : Int) : Kcp × Int :=
  if len < 0 then (kcp, -1)
  else
    let buffer := buffer.take len.toNat
    -- append to previous segment in streaming mode (if possible)
    match kcp.streamTail with
    | some old =>
      let extend := min buffer.length (kcp.mss - old.len)
      let kcp := kcp.fillTail old (buffer.take extend)
      let buffer := buffer.drop extend
      if buffer = [] then (kcp, extend) else kcp.sendFragments buffer extend
    | none =>
      if kcp.stream ∧ buffer = [] then (kcp, 0) else kcp.sendFragments buffer 0

/-! ## What a send takes -/

/-- The bytes that KCP has taken and that are not acknowledged. -/
def outgoing (kcp : Kcp) : List UInt8 := ((kcp.sndBuf ++ kcp.sndQueue).map Segment.data).flatten

/-- The number of bytes that still go into the last segment. -/
def streamRoom (kcp : Kcp) : Nat :=
  match kcp.streamTail with
  | some old => kcp.mss - old.len
  | none => 0

/-- The number of bytes that one `ikcp_send` can take. -/
def capacity (kcp : Kcp) : Nat := kcp.streamRoom + (ikcpWndRcv - 1) * kcp.mss

theorem streamTail_some {kcp : Kcp} {old : Segment} (h : kcp.streamTail = some old) :
    kcp.stream = true ∧ kcp.sndQueue = kcp.sndQueue.dropLast ++ [old] ∧ old.len < kcp.mss := by
  unfold streamTail at h
  split at h
  · rename_i hstream
    split at h
    · rename_i last hlast
      split at h
      · rename_i hroom
        cases h
        exact ⟨hstream, (List.dropLast_append_getLast? old hlast).symm, hroom⟩
      · cases h
    · cases h
  · cases h

theorem fillTail_outgoing {kcp : Kcp} {old : Segment}
    (h : kcp.sndQueue = kcp.sndQueue.dropLast ++ [old]) (bytes : List UInt8) :
    (kcp.fillTail old bytes).outgoing = kcp.outgoing ++ bytes := by
  unfold outgoing fillTail
  dsimp only
  conv_rhs => rw [h]
  simp only [List.map_append, List.flatten_append, List.map_cons, List.map_nil, List.flatten_cons,
    List.flatten_nil, List.append_nil, List.append_assoc]

theorem fragmentCount_lt (kcp : Kcp) (len : Nat) :
    kcp.fragmentCount len < ikcpWndRcv ↔ len ≤ (ikcpWndRcv - 1) * kcp.mss := by
  have hmss := kcp.mss_pos
  unfold fragmentCount ikcpWndRcv
  split
  · omega
  · rw [Nat.div_lt_iff_lt_mul hmss]
    omega

theorem fragmentCount_covers (kcp : Kcp) (len : Nat) :
    0 < kcp.fragmentCount len ∧ len ≤ kcp.fragmentCount len * kcp.mss := by
  have hmss := kcp.mss_pos
  unfold fragmentCount
  split
  · omega
  · rename_i hlong
    have hdiv := Nat.div_add_mod (len + kcp.mss - 1) kcp.mss
    have hmod := Nat.mod_lt (len + kcp.mss - 1) hmss
    -- rounding up loses nothing
    refine ⟨Nat.div_pos (by omega) hmss, ?_⟩
    rw [Nat.mul_comm] at hdiv
    omega

theorem fragments_flatten (kcp : Kcp) (count : Nat) (buffer : List UInt8)
    (h : buffer.length ≤ count * kcp.mss) :
    ((kcp.fragments count buffer).map Segment.data).flatten = buffer := by
  induction count generalizing buffer with
  | zero =>
    rw [Nat.zero_mul, Nat.le_zero, List.length_eq_zero_iff] at h
    rw [h]
    rfl
  | succ count ih =>
    have hrest : (buffer.drop kcp.mss).length ≤ count * kcp.mss := by
      rw [List.length_drop]
      rw [Nat.succ_mul] at h
      omega
    rw [fragments, List.map_cons, List.flatten_cons, ih _ hrest]
    exact List.take_append_drop kcp.mss buffer

/-- What is left after the last segment was filled up is taken as a whole, or not at all. -/
theorem sendFragments_cases (kcp : Kcp) (buffer : List UInt8) (sent : Nat) :
    (buffer.length ≤ (ikcpWndRcv - 1) * kcp.mss ∧
      (kcp.sendFragments buffer sent).2 = (sent : Int) + buffer.length ∧
      (kcp.sendFragments buffer sent).1.outgoing = kcp.outgoing ++ buffer) ∨
    ((ikcpWndRcv - 1) * kcp.mss < buffer.length ∧
      kcp.sendFragments buffer sent =
        (kcp, if kcp.stream = true ∧ 0 < sent then (sent : Int) else -2)) := by
  have hcount := kcp.fragmentCount_lt buffer.length
  obtain ⟨hpos, hcovers⟩ := kcp.fragmentCount_covers buffer.length
  unfold sendFragments
  dsimp only
  -- too many fragments are refused
  by_cases hfits : buffer.length ≤ (ikcpWndRcv - 1) * kcp.mss
  · left
    rw [if_neg (Nat.not_le.mpr (hcount.mpr hfits)), if_neg (Nat.ne_of_gt hpos)]
    refine ⟨hfits, rfl, ?_⟩
    unfold outgoing
    dsimp only
    rw [← List.append_assoc, List.map_append, List.flatten_append, kcp.fragments_flatten _ _ hcovers]
  · right
    rw [if_pos (Nat.not_lt.mp fun h => hfits (hcount.mp h))]
    refine ⟨Nat.not_le.mp hfits, ?_⟩
    split <;> rfl

/-- `ikcp_send` takes the whole payload if it fits, the part of it that goes into the last
segment if there is one with room, and refuses it otherwise. -/
theorem ikcpSend_cases (kcp : Kcp) (buffer : List UInt8) (len : Nat) (hlen : len ≤ buffer.length) :
    (len ≤ kcp.capacity ∧ (kcp.ikcpSend buffer len).2 = len ∧
      (kcp.ikcpSend buffer len).1.outgoing = kcp.outgoing ++ buffer.take len) ∨
    (kcp.capacity < len ∧ 0 < kcp.streamRoom ∧ (kcp.ikcpSend buffer len).2 = kcp.streamRoom ∧
      (kcp.ikcpSend buffer len).1.outgoing = kcp.outgoing ++ buffer.take kcp.streamRoom) ∨
    (kcp.capacity < len ∧ kcp.streamRoom = 0 ∧ kcp.ikcpSend buffer len = (kcp, -2)) := by
  have hpayload : (buffer.take len).length = len := List.length_take_of_le hlen
  unfold ikcpSend
  rw [if_neg (by omega), Int.toNat_natCast]
  dsimp only
  cases htail : kcp.streamTail with
  | none =>
    have hroom : kcp.streamRoom = 0 := by rw [streamRoom, htail]
    have hcapacity : kcp.capacity = (ikcpWndRcv - 1) * kcp.mss := by rw [capacity, hroom, Nat.zero_add]
    dsimp only
    split
    · -- an empty payload in stream mode
      rename_i hempty
      have hzero : len = 0 := by rw [← hpayload, hempty.2, List.length_nil]
      left
      refine ⟨by omega, by rw [hzero]; rfl, ?_⟩
      rw [hempty.2, List.append_nil]
    · -- without a last segment to fill up, the whole payload is cut into fragments
      rcases kcp.sendFragments_cases (buffer.take len) 0 with ⟨hfits, hrc, hbytes⟩ | ⟨hlong, hrun⟩
      · left
        rw [hpayload] at hfits hrc
        exact ⟨hcapacity ▸ hfits, by rw [hrc]; omega, hbytes⟩
      · right; right
        rw [hpayload] at hlong
        refine ⟨hcapacity ▸ hlong, hroom, ?_⟩
        rw [hrun, if_neg fun h => Nat.lt_irrefl 0 h.2]
  | some old =>
    obtain ⟨hstream, hqueue, hshort⟩ := streamTail_some htail
    have hroom : kcp.streamRoom = kcp.mss - old.len := by rw [streamRoom, htail]
    have hroom_pos : 0 < kcp.streamRoom := by omega
    dsimp only
    rw [hpayload, ← hroom]
    -- the state after the last segment was filled up
    have hbytes := fillTail_outgoing hqueue ((buffer.take len).take (min len kcp.streamRoom))
    have hmss : (kcp.fillTail old ((buffer.take len).take (min len kcp.streamRoom))).mss = kcp.mss :=
      rfl
    have hmode : (kcp.fillTail old ((buffer.take len).take (min len kcp.streamRoom))).stream = true :=
      hstream
    generalize kcp.fillTail old ((buffer.take len).take (min len kcp.streamRoom)) = filled
      at hbytes hmss hmode ⊢
    split
    · -- everything went into the last segment
      rename_i hdone
      have hle : len ≤ kcp.streamRoom := by
        have hlength := congrArg List.length hdone
        rw [List.length_drop, hpayload, List.length_nil] at hlength
        omega
      left
      refine ⟨Nat.le_trans hle (Nat.le_add_right _ _), by rw [Nat.min_eq_left hle], ?_⟩
      rw [hbytes, Nat.min_eq_left hle, List.take_take, Nat.min_self]
    · -- the rest is cut into fragments, and the part is kept if the rest is refused
      rename_i hmore
      have hlt : kcp.streamRoom < len := by
        refine Nat.not_le.mp fun hle => hmore ?_
        rw [Nat.min_eq_left hle, List.drop_eq_nil_iff]
        exact Nat.le_of_eq hpayload
      rw [Nat.min_eq_right (Nat.le_of_lt hlt)] at hbytes ⊢
      have hrest : ((buffer.take len).drop kcp.streamRoom).length = len - kcp.streamRoom := by
        rw [List.length_drop, hpayload]
      rcases filled.sendFragments_cases ((buffer.take len).drop kcp.streamRoom) kcp.streamRoom with
        ⟨hfits, hrc, hall⟩ | ⟨hlong, hrun⟩
      · left
        rw [hrest, hmss] at hfits
        rw [hrest] at hrc
        refine ⟨by unfold capacity; omega, by rw [hrc]; omega, ?_⟩
        rw [hall, hbytes, List.append_assoc, List.take_append_drop]
      · right; left
        rw [hrest, hmss] at hlong
        rw [hrun, if_pos ⟨hmode, hroom_pos⟩]
        refine ⟨by unfold capacity; omega, hroom_pos, rfl, ?_⟩
        rw [hbytes, List.take_take, Nat.min_eq_left (Nat.le_of_lt hlt)]

/-! ## Flushing -/

/-- The loop of `ikcp_flush` that moves data from `snd_queue` to `snd_buf`. -/
def moveToSend (limit : BitVec 32) :
    List Segment → List Segment → BitVec 32 → List Segment × List Segment × BitVec 32
  | [], sndBuf, sndNxt => ([], sndBuf, sndNxt)
  | newseg :: sndQueue, sndBuf, sndNxt =>
    if itimediff sndNxt limit < 0 then
      moveToSend limit sndQueue (sndBuf ++ [{ newseg with sn := sndNxt }]) (sndNxt + 1)
    else (newseg :: sndQueue, sndBuf, sndNxt)

/-- `ikcp_flush` -/
def ikcpFlush (kcp : Kcp) : Kcp :=
  if !kcp.updated then kcp
  else
    let cwnd := if kcp.sndWnd ≤ kcp.rmtWnd then kcp.sndWnd else kcp.rmtWnd
    let r := moveToSend (kcp.sndUna + cwnd) kcp.sndQueue kcp.sndBuf kcp.sndNxt
    { kcp with acklist := [], probe := 0, sndQueue := r.1, sndBuf := r.2.1, sndNxt := r.2.2 }

/-- The start of `ikcp_update`: the time is set, on the first call also that of the flush. -/
def startUpdate (kcp : Kcp) (current : BitVec 32) : Kcp :=
  if kcp.updated then { kcp with current := current }
  else { kcp with current := current, updated := true, tsFlush := current }

/-- `slap` in `ikcp_update`, and the time of the flush if it was far off. -/
def flushSlap (kcp : Kcp) : Kcp × Int :=
  let slap := itimediff kcp.current kcp.tsFlush
  if 10000 ≤ slap ∨ slap < -10000 then ({ kcp with tsFlush := kcp.current }, 0) else (kcp, slap)

/-- The time of the next flush. -/
def nextFlush (kcp : Kcp) : Kcp :=
  let tsFlush := kcp.tsFlush + kcp.interval
  if 0 ≤ itimediff kcp.current tsFlush then { kcp with tsFlush := kcp.current + kcp.interval }
  else { kcp with tsFlush := tsFlush }

/-- `ikcp_update` -/
def ikcpUpdate (kcp : Kcp) (current : BitVec 32) : Kcp :=
  let r := (kcp.startUpdate current).flushSlap
  if 0 ≤ r.2 then r.1.nextFlush.ikcpFlush else r.1

/-- A flush keeps the bytes and their order. -/
@[simp] theorem ikcpFlush_outgoing (kcp : Kcp) : kcp.ikcpFlush.outgoing = kcp.outgoing := by
  have hmove : ∀ (limit : BitVec 32) (sndQueue sndBuf : List Segment) (sndNxt : BitVec 32),
      (((moveToSend limit sndQueue sndBuf sndNxt).2.1 ++
        (moveToSend limit sndQueue sndBuf sndNxt).1).map Segment.data) =
      (sndBuf ++ sndQueue).map Segment.data := by
    intro limit sndQueue
    induction sndQueue with
    | nil => exact fun _ _ => rfl
    | cons newseg sndQueue ih =>
      intro sndBuf sndNxt
      unfold moveToSend
      split
      · rw [ih]
        simp [List.append_assoc]
      · rfl
  unfold ikcpFlush
  split
  · rfl
  · exact congrArg List.flatten (hmove _ _ _ _)

@[simp] theorem ikcpFlush_rcvQueue (kcp : Kcp) : kcp.ikcpFlush.rcvQueue = kcp.rcvQueue := by
  unfold ikcpFlush
  split <;> rfl

/-- An update sets the clocks and flushes, or does not. -/
theorem ikcpUpdate_cases (kcp : Kcp) (current : BitVec 32) :
    ∃ tsFlush,
      kcp.ikcpUpdate current =
        { kcp with current := current, updated := true, tsFlush := tsFlush } ∨
      kcp.ikcpUpdate current =
        { kcp with current := current, updated := true, tsFlush := tsFlush }.ikcpFlush := by
  -- the first call starts the clock
  obtain ⟨start, hstart⟩ : ∃ tsFlush, kcp.startUpdate current =
      { kcp with current := current, updated := true, tsFlush := tsFlush } := by
    unfold startUpdate
    split
    · rename_i hupdated
      exact ⟨kcp.tsFlush, by rw [← hupdated]⟩
    · exact ⟨current, rfl⟩
  -- a clock that jumped is set anew
  obtain ⟨slap, hslap⟩ : ∃ tsFlush, (kcp.startUpdate current).flushSlap.1 =
      { kcp with current := current, updated := true, tsFlush := tsFlush } := by
    rw [hstart]
    unfold flushSlap
    dsimp only
    split
    · exact ⟨current, rfl⟩
    · exact ⟨start, rfl⟩
  unfold ikcpUpdate
  dsimp only
  rw [hslap]
  split
  · unfold nextFlush
    dsimp only
    split
    · exact ⟨_, .inr rfl⟩
    · exact ⟨_, .inr rfl⟩
  · exact ⟨slap, .inl rfl⟩

@[simp] theorem ikcpUpdate_outgoing (kcp : Kcp) (current : BitVec 32) :
    (kcp.ikcpUpdate current).outgoing = kcp.outgoing := by
  obtain ⟨tsFlush, hrun | hrun⟩ := kcp.ikcpUpdate_cases current
  · rw [hrun]
    rfl
  · rw [hrun, ikcpFlush_outgoing]
    rfl

@[simp] theorem ikcpUpdate_rcvQueue (kcp : Kcp) (current : BitVec 32) :
    (kcp.ikcpUpdate current).rcvQueue = kcp.rcvQueue := by
  obtain ⟨tsFlush, hrun | hrun⟩ := kcp.ikcpUpdate_cases current
  · rw [hrun]
  · rw [hrun, ikcpFlush_rcvQueue]

/-- `ikcp_waitsnd` -/
def ikcpWaitsnd (kcp : Kcp) : Nat := kcp.sndBuf.length + kcp.sndQueue.length

/-- `ikcp_setmtu` -/
def ikcpSetmtu (kcp : Kcp) (mtu : Int) : Kcp :=
  if h : mtu < 50 ∨ mtu < ikcpOverhead then kcp
  else { kcp with mss := mtu.toNat - ikcpOverhead, mss_pos := by unfold ikcpOverhead; omega }

/-- `ikcp_wndsize` -/
def ikcpWndsize (kcp : Kcp) (sndwnd rcvwnd : Int) : Kcp :=
  let kcp := if 0 < sndwnd then { kcp with sndWnd := BitVec.ofInt 32 sndwnd } else kcp
  if 0 < rcvwnd then { kcp with rcvWnd := BitVec.ofNat 32 (max rcvwnd.toNat ikcpWndRcv) } else kcp

end Kcp

end Evlite
