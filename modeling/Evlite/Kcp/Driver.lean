import Evlite.Kcp.Receive
import Evlite.Kcp.Send
import Evlite.Lib.Drain

/-!
# Receiving with a Driver

`driver_input` gives a datagram to KCP and then appends message after message to the out
buffer. Its loop ends as soon as a size is not positive, although only a negative one says that
no message is there: an empty message stays at the head of the queue, and what follows it is
not delivered.

A connection is a source of messages (`messages`): each message that is taken makes room for
segments of the reorder buffer, which may complete further messages.

## Main results

- `driverInputLoop_eq`: the loop takes the messages up to the first empty one.
- `driverInput_delivers_iff`: everything is delivered unless an empty message is among it.
-/

namespace Evlite

namespace Kcp

/-- `_kcp_refresh_state` at the time `now`. -/
def kcpRefreshState (kcp : Kcp) (now : BitVec 32) : Kcp := (kcp.ikcpUpdate now).ikcpFlush

/-! ## The loop -/

/-- The loop of `driver_input`: what is left of KCP, the out buffer, and the number of bytes. -/
def driverInputLoop (kcp : Kcp) (out : List UInt8) (len : Nat) : Kcp × List UInt8 × Nat :=
  if kcp.ikcpPeeksize ≤ 0 then (kcp, out, len)
  else
    let r := kcp.ikcpRecv kcp.ikcpPeeksize.toNat
    if r.2.2 ≤ 0 then (r.1, out, len)
    else driverInputLoop r.1 (out ++ r.2.1) (len + r.2.2.toNat)
termination_by kcp.received
decreasing_by
  rename_i hsize _
  have hready : 0 ≤ kcp.ikcpPeeksize := by omega
  have hshrinks := ikcpRecv_shrinks hready
  rwa [show kcp.ikcpPeeksize.toNat = kcp.message.length by rw [ikcpPeeksize_eq hready]; rfl]

/-- `driver_input` at the time `now`. -/
def driverInput (kcp : Kcp) (now : BitVec 32) (data out : List UInt8) : Kcp × List UInt8 × Nat :=
  let r := (kcp.ikcpInput data).1.driverInputLoop out 0
  (r.1.kcpRefreshState now, r.2)

/-! ## The messages of a connection -/

/-- The complete messages of `rcv_queue`, and those that become complete as others are taken. -/
def messages : Lib.Source Kcp (List UInt8) where
  next kcp :=
    if 0 ≤ kcp.ikcpPeeksize then some (kcp.message, (kcp.ikcpRecv kcp.message.length).1) else none
  size := received
  shrinks h := by
    simp only [Option.ite_none_right_eq_some, Option.some.injEq, Prod.mk.injEq] at h
    obtain ⟨hready, -, rfl⟩ := h
    exact ikcpRecv_shrinks hready

theorem messages_next_none {kcp : Kcp} : messages.next kcp = none ↔ kcp.ikcpPeeksize < 0 := by
  simp [messages]

/-- The loop takes the messages up to the first empty one. -/
theorem driverInputLoop_eq (kcp : Kcp) (out : List UInt8) (len : Nat) :
    kcp.driverInputLoop out len =
      ((messages.drainWhile (· ≠ []) kcp).2, out ++ (messages.drainWhile (· ≠ []) kcp).1.flatten,
        len + (messages.drainWhile (· ≠ []) kcp).1.flatten.length) := by
  induction kcp using messages.induct generalizing out len with
  | done kcp h =>
    -- no message is complete
    have hnone : kcp.ikcpPeeksize < 0 := messages_next_none.mp h
    rw [Lib.Source.drainWhile_none h, driverInputLoop, if_pos (Int.le_of_lt hnone)]
    simp
  | take kcp m kcp' h ih =>
    have hnext := h
    simp only [messages, Option.ite_none_right_eq_some, Option.some.injEq, Prod.mk.injEq] at hnext
    obtain ⟨hready, rfl, rfl⟩ := hnext
    have hsize := ikcpPeeksize_eq hready
    have hgiven := ikcpRecv_complete hready
    by_cases hempty : kcp.message = []
    · -- the size of an empty message ends the loop
      rw [Lib.Source.drainWhile_stop h (not_not.mpr hempty), driverInputLoop,
        if_pos (by rw [hsize, hempty]; exact Int.le_refl _)]
      simp
    · -- any other message is received as a whole
      have hpos : 0 < kcp.message.length := List.length_pos_of_ne_nil hempty
      rw [Lib.Source.drainWhile_some h hempty, driverInputLoop, if_neg (by rw [hsize]; omega)]
      dsimp only
      rw [hsize, Int.toNat_natCast, hgiven, if_neg (by omega)]
      dsimp only
      rw [ih]
      simp [Nat.add_assoc]

/-! ## What a flush leaves alone -/

theorem ikcpPeeksize_of_queue {kcp kcp' : Kcp} (h : kcp'.rcvQueue = kcp.rcvQueue) :
    kcp'.ikcpPeeksize = kcp.ikcpPeeksize := by
  unfold ikcpPeeksize
  rw [h]

@[simp] theorem kcpRefreshState_rcvQueue (kcp : Kcp) (now : BitVec 32) :
    (kcp.kcpRefreshState now).rcvQueue = kcp.rcvQueue := by
  rw [kcpRefreshState, ikcpFlush_rcvQueue, ikcpUpdate_rcvQueue]

/-! ## Main result -/

/-- Everything that is available after the datagram `data` is delivered, in order: no complete
message is left, and the out buffer grows by the messages. -/
structure Delivers (kcp : Kcp) (now : BitVec 32) (data out : List UInt8) : Prop where
  nothing_left : (kcp.driverInput now data out).1.ikcpPeeksize < 0
  appended : (kcp.driverInput now data out).2.1 =
    out ++ (messages.drain (kcp.ikcpInput data).1).1.flatten

/-- For every state of KCP and every datagram, `driver_input` delivers everything that is
available if and only if no message of it is empty. -/
theorem driverInput_delivers_iff (kcp : Kcp) (now : BitVec 32) (data out : List UInt8) :
    kcp.Delivers now data out ↔ ∀ m ∈ (messages.drain (kcp.ikcpInput data).1).1, m ≠ [] := by
  have hloop := (kcp.ikcpInput data).1.driverInputLoop_eq out 0
  have hleft : (kcp.driverInput now data out).1.ikcpPeeksize =
      (messages.drainWhile (· ≠ []) (kcp.ikcpInput data).1).2.ikcpPeeksize := by
    unfold driverInput
    rw [hloop]
    exact ikcpPeeksize_of_queue (kcpRefreshState_rcvQueue _ now)
  refine ⟨fun h => ?_, fun hall => ?_⟩
  · -- an empty message would still be there
    have hnone := h.nothing_left
    rw [hleft] at hnone
    exact (messages.next_drainWhile_iff (· ≠ []) _).mp (messages_next_none.mpr hnone)
  · -- the loop does not end early
    have hdrain := messages.drainWhile_eq_drain (· ≠ []) (kcp.ikcpInput data).1 hall
    refine ⟨?_, ?_⟩
    · rw [hleft, hdrain]
      exact messages_next_none.mp (messages.next_drain _)
    · unfold driverInput
      rw [hloop, hdrain]

/-- A datagram with an empty message and the message `[104, 105]` behind it. -/
def emptyThenHello : List UInt8 :=
  [0, 0, 0, 0, 81, 0, 128, 0] ++ [0, 0, 0, 0, 0, 0, 0, 0, 0, 0, 0, 0, 0, 0, 0, 0] ++
  [0, 0, 0, 0, 81, 0, 128, 0] ++ [0, 0, 0, 0, 1, 0, 0, 0, 0, 0, 0, 0, 2, 0, 0, 0] ++ [104, 105]

/-- The empty message blocks the message behind it. -/
theorem driverInput_emptyThenHello_blocked :
    (messages.drain (ikcpInput {} emptyThenHello).1).1 = [[], [104, 105]] ∧
      (driverInput {} 0 emptyThenHello []).2.1 = [] ∧ ¬Delivers {} 0 emptyThenHello [] :=
  ⟨by decide +kernel, by decide +kernel, fun h => absurd h.nothing_left (by decide +kernel)⟩

end Kcp

end Evlite
