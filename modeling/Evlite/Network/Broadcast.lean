import Evlite.Lib.Tally
import Evlite.Session.Ops
import Mathlib.Algebra.Ring.Nat

/-!
# Broadcasts on One IO Thread

`_broadcast_direct` and `_broadcast2_direct` (`network.c`) hand one `struct message` to
many sessions. The two counters of the message are its reference count: whoever is done
with a receiver counts a success or a failure, and the message is destroyed by the release
that finds as many counted as there are receivers. The loop of the broadcast,
`session_sendmessage`, `channel_transmit` and `session_end` all take part in the counting.

## Main results

- `Progress.balanced`: what a session does after a broadcast keeps the message balanced.
- `broadcast_accounted_iff`: exactly when the message of a broadcast stays balanced for the
  rest of its life. A session that turns its message down counts the failure itself, and
  `_broadcast_direct` counts it again; for want of memory any session can turn it down.
-/

namespace Evlite

open Lib (Entry Tally Balanced)

/-! ## Messages and what is counted on them -/

/-- The entry that an effect makes on the message `id`. -/
def Effect.entry (id : Nat) : Effect → Option Entry
  | .messageAddReceiver k => if k = id then some .receiver else none
  | .messageAddSuccess k => if k = id then some .success else none
  | .messageAddFailure k => if k = id then some .failure else none
  | .messageRelease k => if k = id then some .release else none
  | .messageDestroy k => if k = id then some .destroy else none
  | _ => none

/-- The entries that a list of effects makes on the message `id`. -/
def entries (id : Nat) (es : List Effect) : List Entry := es.filterMap (Effect.entry id)

@[simp] theorem entries_nil (id : Nat) : entries id [] = [] := rfl

@[simp] theorem entries_cons (id : Nat) (e : Effect) (es : List Effect) :
    entries id (e :: es) = (e.entry id).toList ++ entries id es := by
  rw [entries, entries, List.filterMap_cons]
  cases e.entry id <;> rfl

theorem entries_append (id : Nat) (es fs : List Effect) :
    entries id (es ++ fs) = entries id es ++ entries id fs := List.filterMap_append

theorem entries_eq_nil {id : Nat} {es : List Effect} (h : ∀ e ∈ es, e.entry id = none) :
    entries id es = [] := List.filterMap_eq_nil_iff.mpr h

namespace Session

/-- How often the message `id` is in the send queue. -/
def held (id : Nat) (s : Session) : Nat := s.sendqueue.countP (·.id = id)

/-- What was recorded between `s` and a later `t`. -/
def newEffects (s t : Session) : List Effect := t.trace.drop s.trace.length

theorem newEffects_eq {s t : Session} {es : List Effect} (h : t.trace = s.trace ++ es) :
    newEffects s t = es := by
  rw [newEffects, h]
  exact List.drop_left

/-- Whether `session_sendmessage` fails. -/
def refuses (s : Session) (d : Delivery) : Bool :=
  match d.transform with
  | .null => true
  -- an exiting session, or no memory for what the direct write leaves
  | .fresh bytes => s.status.exiting || (decide (s.LeavesRest bytes d.io) && !s.allocate.2)
  | _ => !s.allocate.2

end Session

/-! ## IO threads -/

/-- `sid_t` -/
structure Sid where
  index : Nat
  version : Nat
  seq : Nat
deriving DecidableEq, Repr

/-- An IO thread with the sessions of its `session_manager`, in the order of their slots,
and what happened on it. -/
structure IoThread where
  index : Nat
  sessions : List (Sid × Session) := []
  log : List Effect := []
deriving DecidableEq, Repr

namespace IoThread

/-- Whether `session_manager_get( id )` returns the session of this slot. -/
def occupies (id : Sid) (p : Sid × Session) : Bool :=
  p.1.seq = id.seq && p.1.version = id.version && !p.2.freed

/-- `session_manager_get` -/
def sessionManagerGet (w : IoThread) (id : Sid) : Option Session :=
  (w.sessions.find? (occupies id)).map (·.2)

/-- Change the session of the first slot that `id` names. -/
def replaceSession (id : Sid) (t : Session) : List (Sid × Session) → List (Sid × Session)
  | [] => []
  | p :: ps => if occupies id p then (p.1, t) :: ps else p :: replaceSession id t ps

/-- Record an effect of the thread itself. -/
def emit (w : IoThread) (e : Effect) : IoThread := { w with log := w.log ++ [e] }

/-- Record that the session `id` went from `s` to `t`. -/
def store (w : IoThread) (id : Sid) (s t : Session) : IoThread :=
  { w with
    sessions := replaceSession id t w.sessions
    log := w.log ++ s.newEffects t }

/-! ## Broadcasting -/

/-- The body of the loop of `_broadcast_direct`. -/
def broadcastReceiver (message : Message) (w : IoThread) (r : Sid × Delivery) : IoThread :=
  if r.1.index = w.index then
    match w.sessionManagerGet r.1 with
    | some s =>
      let t := s.sessionSendmessage message r.2.transform r.2.msg r.2.io
      let w := w.store r.1 s t.1
      -- a failure was already counted by `session_sendmessage`
      if 0 ≤ t.2 then w else w.emit (.messageAddFailure message.id)
    | none => w.emit (.messageAddFailure message.id)
  else w.emit (.messageAddFailure message.id)

/-- `_broadcast_direct`; `layer` is the answer of the layer's `transform`. -/
def broadcastDirect (w : IoThread) (message : Message) (layer : Transform)
    (receivers : List (Sid × Delivery)) : IoThread :=
  match layer.apply message.buffer with
  | none => w.emit (.messageDestroy message.id)
  | some buffer =>
    (receivers.foldl (broadcastReceiver { message with buffer := buffer }) w).emit
      (.messageRelease message.id)

/-- `session_manager_foreach` with `_broadcast2_loop`: the sessions after it, and what
happened. -/
def broadcast2Loop (message : Message) (answers : Sid → Delivery) :
    List (Sid × Session) → List (Sid × Session) × List Effect
  | [] => ([], [])
  | p :: ps =>
    let r := broadcast2Loop message answers ps
    if p.2.freed then (p :: r.1, r.2)
    else
      let d := answers p.1
      let t := (p.2.sessionSendmessage message d.transform d.msg d.io).1
      ((p.1, t) :: r.1, .messageAddReceiver message.id :: p.2.newEffects t ++ r.2)

/-- `_broadcast2_direct` -/
def broadcast2Direct (w : IoThread) (message : Message) (layer : Transform)
    (answers : Sid → Delivery) : IoThread :=
  match layer.apply message.buffer with
  | none => w.emit (.messageDestroy message.id)
  | some buffer =>
    let r := broadcast2Loop { message with buffer := buffer } answers w.sessions
    { w with sessions := r.1, log := w.log ++ r.2 }.emit (.messageRelease message.id)

/-! ## The life of a message -/

/-- How often the message `id` is in the send queues of the thread. -/
def holders (id : Nat) (w : IoThread) : Nat := (w.sessions.map (·.2.held id)).sum

/-- The counters of the message `id` that started with that many receivers. -/
def tally (id receivers : Nat) (w : IoThread) : Tally :=
  ({ receivers := receivers } : Tally).book (entries id w.log)

/-- Every receiver of the message still holds it or was counted once, and the message was
destroyed once if no queue holds it, and not at all otherwise. -/
def Accounted (id receivers : Nat) (w : IoThread) : Prop :=
  Balanced (w.tally id receivers) (w.holders id)

/-- Nothing on the thread knows the message `id` yet. -/
structure Unknown (id : Nat) (w : IoThread) : Prop where
  log : ∀ e ∈ w.log, e.entry id = none
  holders : w.holders id = 0

/-- Whether the receiver `r` is a session of the thread that fails to send. -/
def turnsDown (w : IoThread) (r : Sid × Delivery) : Bool :=
  r.1.index = w.index && (w.sessionManagerGet r.1).any (·.refuses r.2)

/-- How many of the receivers turn the message down, each of them when its turn comes. -/
def refusals (message : Message) : IoThread → List (Sid × Delivery) → Nat
  | _, [] => 0
  | w, r :: rs => (w.turnsDown r).toNat + refusals message (broadcastReceiver message w r) rs

/-- All sessions of the thread have memory whenever they ask for some. -/
def HasMemory (w : IoThread) : Prop := ∀ p ∈ w.sessions, p.2.HasMemory

instance (w : IoThread) : Decidable w.HasMemory :=
  inferInstanceAs (Decidable (∀ p ∈ w.sessions, p.2.HasMemory))

end IoThread

/-- What a session can do after a broadcast: transmit what is queued, end, or anything that
neither concerns the message `id` nor its place in the queue. -/
inductive Progress (id : Nat) (s : Session) : Session → Prop where
  | transmit (halive : s.freed = false) (iovMax : Nat) (ios : List IoResult) :
      Progress id s (s.settingTransmit iovMax ios).1
  | finish (halive : s.freed = false) : Progress id s s.sessionEnd
  | other (t : Session) (es : List Effect) (htrace : t.trace = s.trace ++ es)
      (hentries : ∀ e ∈ es, e.entry id = none) (hheld : t.held id = s.held id) : Progress id s t

/-- What can happen on the thread after a broadcast. -/
inductive Later (id : Nat) (w : IoThread) : IoThread → Prop where
  | session (pre post : List (Sid × Session)) (k : Sid) (s t : Session)
      (hsessions : w.sessions = pre ++ (k, s) :: post) (h : Progress id s t) :
      Later id w { w with sessions := pre ++ (k, t) :: post, log := w.log ++ s.newEffects t }
  /-- A new session gets a slot. -/
  | alloc (pre post : List (Sid × Session)) (k : Sid) (s : Session)
      (hsessions : w.sessions = pre ++ post) (hempty : s.sendqueue = []) :
      Later id w { w with sessions := pre ++ (k, s) :: post }

/-! ## Messages that leave a queue -/

/-- From `s` to `t`, some occurrences of the message `id` leave the queue, and each of them
is counted by `e` and followed by a release. -/
def Drops (id : Nat) (e : Entry) (s t : Session) : Prop :=
  ∃ (n : Nat) (es : List Effect), t.trace = s.trace ++ es ∧ s.held id = n + t.held id ∧
    entries id es = (List.replicate n [e, .release]).flatten

theorem Drops.refl (id : Nat) (e : Entry) (s : Session) : Drops id e s s :=
  ⟨0, [], by rw [List.append_nil], by rw [Nat.zero_add], rfl⟩

theorem Drops.trans {id : Nat} {e : Entry} {s t u : Session} (h₁ : Drops id e s t)
    (h₂ : Drops id e t u) : Drops id e s u := by
  obtain ⟨n₁, es₁, htrace₁, hheld₁, hentries₁⟩ := h₁
  obtain ⟨n₂, es₂, htrace₂, hheld₂, hentries₂⟩ := h₂
  refine ⟨n₁ + n₂, es₁ ++ es₂, by rw [htrace₂, htrace₁, List.append_assoc], by omega, ?_⟩
  rw [entries_append, hentries₁, hentries₂, List.replicate_add, List.flatten_append]

/-- Counting and releasing every message of `q` concerns the message `id` as often as it is
in `q`. -/
theorem entries_flatMap {id : Nat} {e : Entry} {f : Message → List Effect}
    (hf : ∀ m, entries id (f m) = if m.id = id then [e, .release] else []) (q : List Message) :
    entries id (q.flatMap f) = (List.replicate (q.countP (·.id = id)) [e, .release]).flatten := by
  induction q with
  | nil => rfl
  | cons m q ih =>
    rw [List.flatMap_cons, entries_append, hf, ih]
    by_cases hm : m.id = id
    · rw [List.countP_cons_of_pos (by simpa using hm), List.replicate_succ, List.flatten_cons,
        if_pos hm]
    · rw [List.countP_cons_of_neg (by simpa using hm), if_neg hm, List.nil_append]

theorem entries_sentEffects (id : Nat) (m : Message) :
    entries id (Session.sentEffects m) = if m.id = id then [.success, .release] else [] := by
  by_cases hm : m.id = id <;> simp [Session.sentEffects, Effect.entry, hm]

theorem entries_lostEffects (id : Nat) (m : Message) :
    entries id (Session.lostEffects m) = if m.id = id then [.failure, .release] else [] := by
  by_cases hm : m.id = id <;> simp [Session.lostEffects, Effect.entry, hm]

theorem transmitted_drops (id : Nat) (s : Session) (iov : List (List UInt8)) (n : Nat) :
    Drops id .success s (s.transmitted iov n) := by
  -- the queue is what was sent and what is left of it
  have hsplit : s.sendqueue = (Session.popSent (s.msgoffset + n) s.sendqueue).1 ++
      (s.transmitted iov n).sendqueue :=
    (Lib.ChunkQueue.advance_append (f := Message.buffer) (s.msgoffset + n) s.sendqueue).symm
  refine ⟨_, .wrote (iov.flatten.take n) ::
    (Session.popSent (s.msgoffset + n) s.sendqueue).1.flatMap Session.sentEffects, ?_, ?_,
    entries_flatMap (entries_sentEffects id) _⟩
  · simp only [Session.transmitted, Session.emit, Session.emits, List.append_assoc,
      List.singleton_append]
  · rw [Session.held, hsplit, List.countP_append, ← hsplit]
    rfl

theorem channelTransmitLoop_drops (id iovMax : Nat) (ios : List IoResult) (total : Int)
    (s : Session) : Drops id .success s (Session.channelTransmitLoop iovMax ios total s).1 := by
  induction ios generalizing s total with
  | nil => exact .refl id .success s
  | cons io ios ih =>
    unfold Session.channelTransmitLoop
    split
    · exact .refl id .success s
    · dsimp only
      split
      · exact .refl id .success s
      · exact (transmitted_drops id s _ _).trans (ih _ _)
      · exact .refl id .success s
      · exact .refl id .success s

theorem driverTransmit_drops (id : Nat) (ios : List IoResult) (written : Int) (s : Session) :
    Drops id .success s (Session.driverTransmit ios written s).1 := by
  induction ios generalizing s written with
  | nil => exact .refl id .success s
  | cons io ios ih =>
    unfold Session.driverTransmit
    split
    · exact .refl id .success s
    · rename_i m q n hqueue
      refine Drops.trans ⟨_, .wrote m.buffer :: [m].flatMap Session.sentEffects, ?_, ?_,
        entries_flatMap (entries_sentEffects id) [m]⟩ (ih _ _)
      · simp only [Session.emit, Session.emits, List.append_assoc, List.singleton_append,
          List.flatMap_cons, List.flatMap_nil, List.append_nil]
      · rw [Session.held, hqueue, ← List.singleton_append, List.countP_append]
        rfl
    · exact .refl id .success s

theorem settingTransmit_drops (id : Nat) (s : Session) (iovMax : Nat) (ios : List IoResult) :
    Drops id .success s (s.settingTransmit iovMax ios).1 := by
  unfold Session.settingTransmit
  split
  · exact driverTransmit_drops id ios 0 s
  · exact channelTransmitLoop_drops id iovMax ios 0 s

theorem sessionEnd_drops (id : Nat) (s : Session) : Drops id .failure s s.sessionEnd := by
  have hstop : entries id s.stopEffects = [] := by
    apply entries_eq_nil
    intro e he
    rcases List.mem_append.mp he with he | he
    · obtain ⟨t, -, rfl⟩ := List.mem_map.mp he
      rfl
    · unfold Session.closeEffects at he
      split at he
      · rw [List.mem_singleton.mp he]; rfl
      · cases he
  rw [Session.sessionEnd_eq]
  refine ⟨s.held id, s.endEffects, rfl, rfl, ?_⟩
  rw [Session.endEffects, entries_append, hstop, List.append_nil]
  exact entries_flatMap (entries_lostEffects id) s.sendqueue

theorem Progress.drops {id : Nat} {s t : Session} (h : Progress id s t) :
    ∃ e : Entry, (e = .success ∨ e = .failure) ∧ Drops id e s t := by
  cases h with
  | transmit _ iovMax ios => exact ⟨.success, .inl rfl, settingTransmit_drops id s iovMax ios⟩
  | finish => exact ⟨.failure, .inr rfl, sessionEnd_drops id s⟩
  | other t es htrace hentries hheld =>
    exact ⟨.success, .inl rfl, 0, es, htrace, by omega, entries_eq_nil hentries⟩

/-- A session that goes on leaves the message balanced. -/
theorem Progress.balanced {id : Nat} {s t : Session} (h : Progress id s t) {c : Tally} {k : Nat}
    (hc : Balanced c (s.held id + k)) :
    Balanced (c.book (entries id (s.newEffects t))) (t.held id + k) := by
  obtain ⟨e, he, n, es, htrace, hheld, hentries⟩ := h.drops
  rw [Session.newEffects_eq htrace, hentries]
  apply Balanced.leaves _ he
  rwa [← Nat.add_assoc, ← hheld]

/-! ## Handing the message to one session -/

/-- What the session `s` makes of the message `id`: it takes it over, or counts it. -/
inductive Handed (id : Nat) (s t : Session) (es : List Effect) : Prop where
  | queued (hheld : t.held id = s.held id + 1) (hentries : entries id es = [])
  | counted (e : Entry) (he : e = .success ∨ e = .failure) (hheld : t.held id = s.held id)
      (hentries : entries id es = [e])

/-- In both cases one receiver more is accounted for, and nothing is released. -/
theorem Handed.counts {id : Nat} {s t : Session} {es : List Effect} (h : Handed id s t es)
    (c : Tally) :
    (c.book (entries id es)).receivers = c.receivers ∧
      (c.book (entries id es)).destroyed = c.destroyed ∧
      (c.book (entries id es)).counted + t.held id = c.counted + s.held id + 1 := by
  cases h with
  | queued hheld hentries =>
    rw [hentries, hheld]
    exact ⟨rfl, rfl, rfl⟩
  | counted e he hheld hentries =>
    rw [hentries, hheld]
    obtain ⟨hreceivers, hdestroyed, hcounted⟩ := c.enter_counted he
    exact ⟨hreceivers, hdestroyed, by rw [Lib.Tally.book_cons, Lib.Tally.book_nil]; omega⟩

/-- Sending a buffer of its own leaves no trace on the message `id`. -/
theorem sendBuffer_spares {id msg : Nat} (s : Session) (buf : List UInt8) (io : IoResult)
    (hmsg : msg ≠ id) :
    (s.sendBuffer buf msg io).1.freed = s.freed ∧
      (s.sendBuffer buf msg io).1.status.exiting = s.status.exiting ∧
      (s.sendBuffer buf msg io).1.held id = s.held id ∧
      ∃ es, (s.sendBuffer buf msg io).1.trace = s.trace ++ es ∧ entries id es = [] := by
  have hdirect : ∀ n t, Session.SentDirectly s buf n t →
      t.freed = s.freed ∧ t.status.exiting = s.status.exiting ∧ t.held id = s.held id ∧
        ∃ es, t.trace = s.trace ++ es ∧ entries id es = [] := fun n t hsent => by
    cases hsent with
    | nothing => exact ⟨rfl, rfl, rfl, [], by rw [List.append_nil], rfl⟩
    | bytes n hn => exact ⟨rfl, rfl, rfl, [.wrote (buf.take n)], rfl, rfl⟩
  have hrun := Session.sendBuffer_cases s buf msg io
  generalize s.sendBuffer buf msg io = r at hrun
  obtain ⟨u, rc⟩ := r
  dsimp only at hrun ⊢
  cases hrun with
  | refused => exact ⟨rfl, rfl, rfl, [], by rw [List.append_nil], rfl⟩
  | whole _ n _ hsent => exact hdirect n u hsent
  | noMessage _ n t hsent => exact hdirect n t hsent
  | queued _ n t hsent =>
    -- the rest waits in the queue, in a message of its own, or is lost
    obtain ⟨hfreed, hexit, hheld, es, htrace, hentries⟩ := hdirect n t hsent
    refine ⟨by simpa using hfreed, by simpa using hexit, ?_, es ++ [.messageCreate msg],
      by simp [htrace], by rw [entries_append, hentries]; rfl⟩
    rw [← hheld, Session.held, Session.queueRest_sendqueue]
    split
    · simp [Session.held, Session.remainder, List.countP_append, hmsg]
    · rfl

theorem sendBuffer_result (s : Session) (buf : List UInt8) (msg : Nat) (io : IoResult) :
    (s.sendBuffer buf msg io).2 < 0 ↔
      (s.status.exiting || (decide (s.LeavesRest buf io) && !s.allocate.2)) = true := by
  have hrun := Session.sendBuffer_cases s buf msg io
  generalize s.sendBuffer buf msg io = r at hrun
  obtain ⟨u, rc⟩ := r
  dsimp only at hrun ⊢
  cases hrun with
  | refused hexit =>
    rw [hexit]
    exact iff_of_true (by show (-1 : Int) < 0; decide) rfl
  | whole hexit n _ _ honly hall =>
    have hnone : ¬s.LeavesRest buf io := by
      rw [s.leavesRest_iff buf io hexit, honly]
      dsimp only
      omega
    have hpos : ¬(n : Int) < 0 := by omega
    simp [hexit, hnone, hpos]
  | noMessage hexit n t hsent honly hrest hmemory =>
    have hleft : s.LeavesRest buf io := by
      rw [s.leavesRest_iff buf io hexit, honly]
      dsimp only
      omega
    have hnone : s.allocate.2 = false := hsent.allocate.1.symm.trans hmemory
    simp [hleft, hnone]
  | queued hexit n t hsent honly hrest hmemory =>
    have hthere : s.allocate.2 = true := hsent.allocate.1.symm.trans hmemory
    have hpos : ¬(n : Int) < 0 := by omega
    simp [hexit, hthere, hpos]

/-- What `session_sendmessage` with the result `r` did to the session `s`: it failed if the
session refuses the message, and in any case the message was queued once or counted once. -/
structure Handling (id : Nat) (s : Session) (refused : Bool) (r : Session × Int) : Prop where
  result : r.2 < 0 ↔ refused = true
  freed : r.1.freed = s.freed
  exiting : r.1.status.exiting = s.status.exiting
  handed : ∃ es, r.1.trace = s.trace ++ es ∧ Handed id s r.1 es

/-- The untransformed message goes into the queue, if there is memory for it. -/
theorem queuePush_handling (s : Session) (message : Message) (msg : Nat) (io : IoResult) :
    Handling message.id s (!s.allocate.2) (s.sessionSendmessage message .absent msg io) := by
  cases hmemory : s.allocate.2 with
  | true =>
    have hrun : s.sessionSendmessage message .absent msg io =
        (((s.queuePush message).1.sessionAddEvent .evWrite).emit (.accepted message.buffer), 0) := by
      simp only [Session.sessionSendmessage, Session.queuePush_of_memory message hmemory,
        Session.accept]
      rfl
    rw [hrun, Session.queuePush_of_memory message hmemory]
    refine ⟨by simp, by simp [Session.emit, Session.allocate], by simp [Session.emit, Session.allocate],
      [.accepted message.buffer], ?_, .queued ?_ rfl⟩
    · simp [Session.emit, Session.allocate]
    · simp [Session.held, Session.emit, List.countP_append]
  | false =>
    have hrun : s.sessionSendmessage message .absent msg io =
        (s.allocate.1.emit (.messageAddFailure message.id), -1) := by
      simp only [Session.sessionSendmessage, Session.queuePush_of_none message hmemory,
        Session.accept]
      rfl
    rw [hrun]
    refine ⟨by simp, rfl, rfl, [.messageAddFailure message.id], rfl,
      .counted .failure (.inr rfl) rfl ?_⟩
    simp [Effect.entry]

/-- A transformed copy goes out on its own, and the message is done with at once. -/
theorem sendBuffer_handling (s : Session) (message : Message) (bytes : List UInt8) (msg : Nat)
    (io : IoResult) (hmsg : msg ≠ message.id) :
    Handling message.id s (s.status.exiting || (decide (s.LeavesRest bytes io) && !s.allocate.2))
      (s.sessionSendmessage message (.fresh bytes) msg io) := by
  obtain ⟨hfreed, hexit, hheld, es, htrace, hentries⟩ := sendBuffer_spares s bytes io hmsg
  -- the message is counted here, whatever happens to the transformed bytes
  have hresult := sendBuffer_result s bytes msg io
  have hrun : s.sessionSendmessage message (.fresh bytes) msg io =
      let r := s.sendBuffer bytes msg io
      if r.2 < 0 then (r.1.emit (.messageAddFailure message.id), r.2)
      else ((r.1.emit (.accepted bytes)).emit (.messageAddSuccess message.id), r.2) := by
    simp only [Session.sessionSendmessage, Session.accept]
    by_cases hneg : (s.sendBuffer bytes msg io).2 < 0
    · have hpos : ¬(0 ≤ (s.sendBuffer bytes msg io).2) := Int.not_le.mpr hneg
      simp only [hpos, if_false, hneg, if_true]
    · have hpos : 0 ≤ (s.sendBuffer bytes msg io).2 := Int.not_lt.mp hneg
      simp only [hpos, hneg, if_true, if_false]
  rw [hrun]
  generalize s.sendBuffer bytes msg io = r at hfreed hexit hheld htrace hresult
  dsimp only
  by_cases hneg : r.2 < 0
  · rw [if_pos hneg]
    refine ⟨iff_of_true hneg (hresult.mp hneg), hfreed, hexit,
      es ++ [.messageAddFailure message.id], ?_, .counted .failure (.inr rfl) hheld ?_⟩
    · simp [Session.emit, htrace]
    · rw [entries_append, hentries]
      simp [Effect.entry]
  · rw [if_neg hneg]
    refine ⟨iff_of_false hneg (fun h => hneg (hresult.mpr h)), hfreed, hexit,
      es ++ [.accepted bytes, .messageAddSuccess message.id], ?_,
      .counted .success (.inl rfl) hheld ?_⟩
    · simp [Session.emit, htrace]
    · rw [entries_append, hentries]
      simp [Effect.entry]

/-- `session_sendmessage` fails exactly on a session that refuses the message; it queues the
message once or counts it once. -/
theorem sessionSendmessage_handling (s : Session) (message : Message) (d : Delivery)
    (hmsg : d.msg ≠ message.id) :
    Handling message.id s (s.refuses d)
      (s.sessionSendmessage message d.transform d.msg d.io) := by
  unfold Session.refuses
  cases d.transform with
  | absent => exact queuePush_handling s message d.msg d.io
  | same => exact queuePush_handling s message d.msg d.io
  | fresh bytes => exact sendBuffer_handling s message bytes d.msg d.io hmsg
  | null =>
    refine ⟨iff_of_true (by show (-1 : Int) < 0; decide) rfl, rfl, rfl,
      [.messageAddFailure message.id], rfl, .counted .failure (.inr rfl) rfl ?_⟩
    simp [Effect.entry]

namespace IoThread

theorem tally_append {w u : IoThread} {es : List Effect} (hlog : u.log = w.log ++ es)
    (id receivers : Nat) :
    u.tally id receivers = (w.tally id receivers).book (entries id es) := by
  rw [tally, tally, hlog, entries_append, Lib.Tally.book_append]

theorem holders_split {w : IoThread} {pre post : List (Sid × Session)} {k : Sid} {s : Session}
    (hsessions : w.sessions = pre ++ (k, s) :: post) (id : Nat) :
    w.holders id = s.held id + ((pre ++ post).map (·.2.held id)).sum := by
  simp only [holders, hsessions, List.map_append, List.map_cons, List.sum_append, List.sum_cons]
  omega

/-- Whatever happens later on the thread, the message stays accounted for. -/
theorem Accounted.later {id receivers : Nat} {w u : IoThread} (hw : w.Accounted id receivers)
    (h : Later id w u) : u.Accounted id receivers := by
  cases h with
  | session pre post k s t hsessions h =>
    rw [Accounted, holders_split hsessions] at hw
    rw [Accounted, tally_append (w := w) rfl, holders_split rfl]
    exact h.balanced hw
  | alloc pre post k s hsessions hempty =>
    have hsame : holders id { w with sessions := pre ++ (k, s) :: post } = w.holders id := by
      rw [holders_split rfl, Session.held, hempty, holders, hsessions]
      exact Nat.zero_add _
    rw [Accounted, hsame]
    exact hw

/-- Whatever happens on the thread, the message is accounted for. -/
def StaysAccounted (id receivers : Nat) (w : IoThread) : Prop :=
  ∀ u, Relation.ReflTransGen (Later id) w u → u.Accounted id receivers

/-- It stays accounted for if it is so now. -/
theorem staysAccounted_iff {id receivers : Nat} {w : IoThread} :
    w.StaysAccounted id receivers ↔ w.Accounted id receivers := by
  refine ⟨fun h => h w .refl, fun hw u h => ?_⟩
  induction h with
  | refl => exact hw
  | tail _ hstep ih => exact ih.later hstep

/-! ## The loops -/

/-- What the broadcast loop does not change of a thread: which ids name a live session, and
whether it is exiting. -/
def profile (w : IoThread) : List (Sid × Bool × Bool) :=
  w.sessions.map fun p => (p.1, p.2.freed, p.2.status.exiting)

/-- An id that names a session names the first one in a slot of that id. -/
theorem sessionManagerGet_split {id : Sid} {s : Session} {ps : List (Sid × Session)}
    (h : (ps.find? (occupies id)).map (·.2) = some s) :
    ∃ pre k post, ps = pre ++ (k, s) :: post ∧ s.freed = false ∧
      ∀ t, replaceSession id t ps = pre ++ (k, t) :: post := by
  induction ps with
  | nil => cases h
  | cons p ps ih =>
    by_cases hp : occupies id p = true
    · rw [List.find?_cons_of_pos hp] at h
      obtain rfl : p.2 = s := Option.some.inj h
      refine ⟨[], p.1, ps, rfl, ?_, fun t => by rw [replaceSession, if_pos hp]; rfl⟩
      simpa using (Bool.and_eq_true_iff.mp hp).2
    · rw [List.find?_cons_of_neg hp] at h
      obtain ⟨pre, k, post, rfl, hfreed, hreplace⟩ := ih h
      refine ⟨p :: pre, k, post, rfl, hfreed, fun t => ?_⟩
      rw [replaceSession, if_neg hp, hreplace]
      rfl

/-- With memory, it depends on the profile of the thread only whether a session turns the
message down. -/
theorem turnsDown_congr {w u : IoThread} (hindex : u.index = w.index)
    (hprofile : u.profile = w.profile) (hw : w.HasMemory) (hu : u.HasMemory) (r : Sid × Delivery) :
    u.turnsDown r = w.turnsDown r := by
  -- the search sees the ids and the profile only
  let seen : Sid × Bool × Bool → Bool := fun q =>
    q.1.seq = r.1.seq && q.1.version = r.1.version && !q.2.1
  let refused : Sid × Bool × Bool → Bool := fun q =>
    match r.2.transform with
    | .null => true
    | .fresh _ => q.2.2
    | _ => false
  have hrefuses : ∀ s : Session, s.HasMemory → s.refuses r.2 =
      match r.2.transform with
      | .null => true
      | .fresh _ => s.status.exiting
      | _ => false := by
    intro s hs
    unfold Session.refuses
    rw [hs.allocate]
    cases r.2.transform <;> simp
  have hsearch : ∀ v : IoThread, v.HasMemory → (v.sessionManagerGet r.1).any (·.refuses r.2) =
      (v.profile.find? seen).any refused := by
    intro v hv
    rw [profile, List.find?_map, sessionManagerGet, Option.any_map, Option.any_map]
    have hseen : (seen ∘ fun p : Sid × Session => (p.1, p.2.freed, p.2.status.exiting)) =
        occupies r.1 := rfl
    rw [hseen]
    cases hfind : v.sessions.find? (occupies r.1) with
    | none => rfl
    | some p => exact hrefuses p.2 (hv p (List.mem_of_find?_eq_some hfind))
  rw [turnsDown, turnsDown, hindex, hsearch w hw, hsearch u hu, hprofile]

/-- What the loop of a broadcast keeps while it counts `n` receivers more, starting with
`total` of them. -/
structure Counts (id total n : Nat) (w u : IoThread) : Prop where
  index : u.index = w.index
  profile : u.profile = w.profile
  receivers : (u.tally id total).receivers = (w.tally id total).receivers
  destroyed : (u.tally id total).destroyed = (w.tally id total).destroyed
  counted : (u.tally id total).counted + u.holders id =
    (w.tally id total).counted + w.holders id + n

theorem Counts.refl (id total : Nat) (w : IoThread) : Counts id total 0 w w :=
  ⟨rfl, rfl, rfl, rfl, rfl⟩

theorem Counts.trans {id total n m : Nat} {w u v : IoThread} (h₁ : Counts id total n w u)
    (h₂ : Counts id total m u v) : Counts id total (n + m) w v where
  index := h₂.index.trans h₁.index
  profile := h₂.profile.trans h₁.profile
  receivers := h₂.receivers.trans h₁.receivers
  destroyed := h₂.destroyed.trans h₁.destroyed
  counted := by
    have hfirst := h₁.counted
    have hsecond := h₂.counted
    omega

/-- Counting a failure. -/
theorem emit_failure_counts (id total : Nat) (w : IoThread) :
    Counts id total 1 w (w.emit (.messageAddFailure id)) := by
  have htally : (w.emit (.messageAddFailure id)).tally id total =
      (w.tally id total).enter .failure := by
    rw [tally_append (w := w) rfl]
    simp [Effect.entry]
  obtain ⟨hreceivers, hdestroyed, hcounted⟩ :=
    (w.tally id total).enter_counted (e := .failure) (.inr rfl)
  rw [← htally] at hreceivers hdestroyed hcounted
  have hholders : (w.emit (.messageAddFailure id)).holders id = w.holders id := rfl
  exact ⟨rfl, rfl, hreceivers, hdestroyed, by omega⟩

/-- Handing the message to one session counts one receiver. -/
theorem store_counts {total : Nat} {w : IoThread} {message : Message} {id : Sid} {s : Session}
    {refused : Bool} {r : Session × Int} (hget : w.sessionManagerGet id = some s)
    (h : Handling message.id s refused r) : Counts message.id total 1 w (w.store id s r.1) := by
  obtain ⟨pre, k, post, hsessions, -, hreplace⟩ := sessionManagerGet_split hget
  obtain ⟨es, htrace, hhanded⟩ := h.handed
  have hstored : (w.store id s r.1).sessions = pre ++ (k, r.1) :: post := hreplace r.1
  have hlog : (w.store id s r.1).log = w.log ++ es := by
    rw [store, Session.newEffects_eq htrace]
  obtain ⟨hreceivers, hdestroyed, hcounted⟩ := hhanded.counts (w.tally message.id total)
  rw [← tally_append hlog] at hreceivers hdestroyed hcounted
  refine ⟨rfl, ?_, hreceivers, hdestroyed, ?_⟩
  · rw [profile, profile, hsessions, hstored]
    simp [h.freed, h.exiting]
  · rw [holders_split hsessions, holders_split hstored]
    omega

/-- One receiver is counted once, and once more if it is a session that turns the message
down. -/
theorem broadcastReceiver_counts (total : Nat) (w : IoThread) (message : Message)
    (r : Sid × Delivery) (hmsg : r.2.msg ≠ message.id) :
    Counts message.id total (1 + (w.turnsDown r).toNat) w (broadcastReceiver message w r) := by
  unfold broadcastReceiver turnsDown
  by_cases hindex : r.1.index = w.index
  · rw [if_pos hindex]
    cases hget : w.sessionManagerGet r.1 with
    | none =>
      simp only [Option.any_none, Bool.and_false, Bool.toNat_false]
      exact emit_failure_counts message.id total w
    | some s =>
      have hhandling := sessionSendmessage_handling s message r.2 hmsg
      have hstore : Counts message.id total 1 w
          (w.store r.1 s (s.sessionSendmessage message r.2.transform r.2.msg r.2.io).1) :=
        store_counts hget hhandling
      simp only [hindex, decide_true, Bool.true_and, Option.any_some]
      by_cases hneg : (s.sessionSendmessage message r.2.transform r.2.msg r.2.io).2 < 0
      · -- counted by `session_sendmessage`, and again by the loop
        rw [if_neg (Int.not_le.mpr hneg), hhandling.result.mp hneg]
        exact hstore.trans (emit_failure_counts message.id total _)
      · have hkept : s.refuses r.2 = false := by
          simpa using mt hhandling.result.mpr hneg
        rw [if_pos (Int.not_lt.mp hneg), hkept]
        exact hstore
  · rw [if_neg hindex]
    simp only [hindex, decide_false, Bool.false_and, Bool.toNat_false]
    exact emit_failure_counts message.id total w

/-- The loop of `_broadcast_direct`. -/
theorem broadcastLoop_counts (total : Nat) (w : IoThread) (message : Message)
    (receivers : List (Sid × Delivery)) (hmsg : ∀ r ∈ receivers, r.2.msg ≠ message.id) :
    Counts message.id total (receivers.length + refusals message w receivers) w
      (receivers.foldl (broadcastReceiver message) w) := by
  induction receivers generalizing w with
  | nil => exact Counts.refl message.id total w
  | cons r rs ih =>
    have hfirst := broadcastReceiver_counts total w message r (hmsg r (List.mem_cons_self ..))
    have hrest := ih (broadcastReceiver message w r) fun q hq => hmsg q (List.mem_cons_of_mem r hq)
    have hall := hfirst.trans hrest
    have hlength : 1 + (w.turnsDown r).toNat +
          (rs.length + refusals message (broadcastReceiver message w r) rs) =
        (r :: rs).length + refusals message w (r :: rs) := by
      rw [List.length_cons, refusals]
      omega
    rwa [hlength] at hall

theorem mem_replaceSession {id : Sid} {t : Session} {ps : List (Sid × Session)} {p : Sid × Session}
    (h : p ∈ replaceSession id t ps) : p ∈ ps ∨ p.2 = t := by
  induction ps with
  | nil => cases h
  | cons q ps ih =>
    rw [replaceSession] at h
    split at h
    · rcases List.mem_cons.mp h with rfl | h
      · exact .inr rfl
      · exact .inl (List.mem_cons_of_mem q h)
    · rcases List.mem_cons.mp h with rfl | h
      · exact .inl List.mem_cons_self
      · exact (ih h).imp_left (List.mem_cons_of_mem q)

/-- A broadcast uses up answers of the allocator, and changes none. -/
theorem broadcastReceiver_hasMemory {w : IoThread} (hw : w.HasMemory) (message : Message)
    (r : Sid × Delivery) : (broadcastReceiver message w r).HasMemory := by
  unfold broadcastReceiver
  split
  · cases hget : w.sessionManagerGet r.1 with
    | none => exact hw
    | some s =>
      obtain ⟨pre, k, post, hsessions, -, -⟩ := sessionManagerGet_split hget
      have hs : s.HasMemory := hw (k, s) (by rw [hsessions]; simp)
      have hstored : (w.store r.1 s
          (s.sessionSendmessage message r.2.transform r.2.msg r.2.io).1).HasMemory := by
        intro p hp
        rcases mem_replaceSession hp with hp | hp
        · exact hw p hp
        · rw [hp]
          exact hs.of_suffix (Session.sessionSendmessage_memory ..)
      dsimp only
      split <;> exact hstored
  · exact hw

/-- With memory, the receivers can be asked before the broadcast. -/
theorem refusals_of_memory {w : IoThread} (hw : w.HasMemory) (message : Message)
    (receivers : List (Sid × Delivery)) (hmsg : ∀ r ∈ receivers, r.2.msg ≠ message.id) :
    refusals message w receivers = receivers.countP w.turnsDown := by
  induction receivers generalizing w with
  | nil => rfl
  | cons r rs ih =>
    have hkept := broadcastReceiver_counts 0 w message r (hmsg r (List.mem_cons_self ..))
    have hnext := broadcastReceiver_hasMemory hw message r
    have hsame : rs.countP (broadcastReceiver message w r).turnsDown = rs.countP w.turnsDown :=
      List.countP_congr fun q _ => by rw [turnsDown_congr hkept.index hkept.profile hw hnext]
    rw [refusals, ih hnext fun q hq => hmsg q (List.mem_cons_of_mem r hq), hsame, List.countP_cons]
    cases w.turnsDown r with
    | false => simp
    | true => simp [Nat.add_comm]

/-- The loop of `_broadcast2_direct` adds a receiver for every live session and counts it
once. -/
theorem broadcast2Loop_counts (c : Tally) (message : Message) (answers : Sid → Delivery)
    (hmsg : ∀ k, (answers k).msg ≠ message.id) (ps : List (Sid × Session)) :
    ∃ n, (c.book (entries message.id (broadcast2Loop message answers ps).2)).receivers =
        c.receivers + n ∧
      (c.book (entries message.id (broadcast2Loop message answers ps).2)).destroyed = c.destroyed ∧
      (c.book (entries message.id (broadcast2Loop message answers ps).2)).counted +
          ((broadcast2Loop message answers ps).1.map (·.2.held message.id)).sum =
        c.counted + (ps.map (·.2.held message.id)).sum + n := by
  induction ps generalizing c with
  | nil => exact ⟨0, rfl, rfl, rfl⟩
  | cons p ps ih =>
    unfold broadcast2Loop
    cases hfreed : p.2.freed with
    | true =>
      obtain ⟨n, hreceivers, hdestroyed, hcounted⟩ := ih c
      refine ⟨n, hreceivers, hdestroyed, ?_⟩
      simp only [if_true, List.map_cons, List.sum_cons]
      omega
    | false =>
      have hhandling := sessionSendmessage_handling p.2 message (answers p.1) (hmsg p.1)
      obtain ⟨es, htrace, hhanded⟩ := hhandling.handed
      -- the receiver is added before the session gets the message
      obtain ⟨hreceivers, hdestroyed, hcounted⟩ := hhanded.counts (c.enter .receiver)
      obtain ⟨n, hreceivers', hdestroyed', hcounted'⟩ :=
        ih ((c.enter .receiver).book (entries message.id es))
      have hadd : (c.enter .receiver).receivers = c.receivers + 1 ∧
          (c.enter .receiver).destroyed = c.destroyed ∧
          (c.enter .receiver).counted = c.counted := ⟨rfl, rfl, rfl⟩
      have hentry : (Effect.messageAddReceiver message.id).entry message.id = some .receiver :=
        if_pos rfl
      simp only [Bool.false_eq_true, if_false, Session.newEffects_eq htrace, List.cons_append,
        entries_cons, entries_append, hentry, Option.toList_some, List.nil_append,
        Lib.Tally.book_cons, Lib.Tally.book_append, List.map_cons, List.sum_cons]
      exact ⟨n + 1, by omega, by omega, by omega⟩

/-! ## Main result -/

theorem Unknown.tally {id : Nat} {w : IoThread} (h : w.Unknown id) (total : Nat) :
    w.tally id total = { receivers := total } := by
  rw [IoThread.tally, entries_eq_nil h.log]
  rfl

/-- The final release of a broadcast decides: the message is accounted for if every receiver
was counted once. -/
theorem release_accounted {id total : Nat} {w : IoThread}
    (hdestroyed : (w.tally id total).destroyed = 0) :
    (w.emit (.messageRelease id)).Accounted id total ↔
      (w.tally id total).counted + w.holders id = (w.tally id total).receivers := by
  have hentry : entries id [.messageRelease id] = [.release] := by simp [Effect.entry]
  rw [Accounted, tally_append (w := w) rfl, hentry]
  exact Lib.Tally.balanced_iff_of_release hdestroyed

/-- The message of a broadcast that the layer's `transform` turned down. -/
theorem destroy_accounted {id total : Nat} {w : IoThread} (hw : w.Unknown id) :
    (w.emit (.messageDestroy id)).Accounted id total ↔ total = 0 := by
  have hentry : entries id [.messageDestroy id] = [.destroy] := by simp [Effect.entry]
  have hholders : (w.emit (.messageDestroy id)).holders id = 0 := hw.holders
  rw [Accounted, tally_append (w := w) rfl, hentry, hw.tally, hholders]
  constructor
  · intro h
    exact h.counted.symm
  · rintro rfl
    exact ⟨rfl, rfl⟩

/-- After `_broadcast_direct` the message is accounted for if the layer let it pass and no
session turned it down, or if there was nobody to receive it. -/
theorem broadcastDirect_accounted (w : IoThread) (message : Message) (layer : Transform)
    (receivers : List (Sid × Delivery)) (hw : w.Unknown message.id)
    (hmsg : ∀ r ∈ receivers, r.2.msg ≠ message.id) :
    (w.broadcastDirect message layer receivers).Accounted message.id receivers.length ↔
      (layer ≠ .null ∨ receivers = []) ∧ ∀ buffer, layer.apply message.buffer = some buffer →
        refusals { message with buffer := buffer } w receivers = 0 := by
  have hpassed : ∀ buffer,
      ((receivers.foldl (broadcastReceiver { message with buffer := buffer }) w).emit
        (.messageRelease message.id)).Accounted message.id receivers.length ↔
          refusals { message with buffer := buffer } w receivers = 0 := by
    intro buffer
    have hloop := broadcastLoop_counts receivers.length w { message with buffer := buffer }
      receivers hmsg
    generalize receivers.foldl (broadcastReceiver { message with buffer := buffer }) w = u at hloop
    have htally := hw.tally receivers.length
    have hreceivers : (u.tally message.id receivers.length).receivers = receivers.length :=
      hloop.receivers.trans (by rw [htally])
    -- a receiver that turns the message down is counted once more
    have hcounted : (u.tally message.id receivers.length).counted + u.holders message.id =
        receivers.length + refusals { message with buffer := buffer } w receivers := by
      have hall := hloop.counted
      rw [show ({ message with buffer := buffer } : Message).id = message.id from rfl, htally,
        hw.holders] at hall
      rw [hall]
      exact Nat.zero_add _
    have hnone : (u.tally message.id receivers.length).destroyed = 0 :=
      hloop.destroyed.trans (by rw [htally])
    rw [release_accounted hnone, hcounted, hreceivers, Nat.add_eq_left]
  -- the buffer that the layer returned is the one that is broadcast
  have hlet : ∀ {buffer : List UInt8}, layer.apply message.buffer = some buffer →
      (refusals { message with buffer := buffer } w receivers = 0 ↔
        (layer ≠ .null ∨ receivers = []) ∧ ∀ b, layer.apply message.buffer = some b →
          refusals { message with buffer := b } w receivers = 0) := fun {buffer} happly => by
    have hpass : layer ≠ .null := by
      rintro rfl
      cases happly
    refine ⟨fun hnone => ⟨.inl hpass, fun b hb => ?_⟩, fun h => h.2 buffer happly⟩
    rw [happly] at hb
    cases hb
    exact hnone
  cases layer with
  | absent => exact (hpassed message.buffer).trans (hlet rfl)
  | same => exact (hpassed message.buffer).trans (hlet rfl)
  | fresh bytes => exact (hpassed bytes).trans (hlet rfl)
  | null =>
    -- the layer failed, and the message is destroyed with its receivers uncounted
    show (w.emit (.messageDestroy message.id)).Accounted message.id receivers.length ↔ _
    rw [destroy_accounted hw, List.length_eq_zero_iff]
    constructor
    · rintro rfl
      exact ⟨.inr rfl, fun _ h => nomatch h⟩
    · intro h
      exact h.1.resolve_left (by simp)

/-- After `_broadcast2_direct` the message is accounted for. -/
theorem broadcast2Direct_accounted (w : IoThread) (message : Message) (layer : Transform)
    (answers : Sid → Delivery) (hw : w.Unknown message.id)
    (hmsg : ∀ k, (answers k).msg ≠ message.id) :
    (w.broadcast2Direct message layer answers).Accounted message.id 0 := by
  have hpassed : ∀ buffer,
      let r := broadcast2Loop { message with buffer := buffer } answers w.sessions
      (({ w with sessions := r.1, log := w.log ++ r.2 } : IoThread).emit
        (.messageRelease message.id)).Accounted message.id 0 := by
    intro buffer
    obtain ⟨n, hreceivers, hdestroyed, hcounted⟩ := broadcast2Loop_counts (w.tally message.id 0)
      { message with buffer := buffer } answers hmsg w.sessions
    rw [← tally_append (u := { w with
      sessions := (broadcast2Loop { message with buffer := buffer } answers w.sessions).1
      log := w.log ++ (broadcast2Loop { message with buffer := buffer } answers w.sessions).2 })
      rfl] at hreceivers hdestroyed hcounted
    -- no session held the message before
    have hnone := hw.holders
    rw [holders] at hnone
    rw [hw.tally] at hreceivers hdestroyed hcounted
    apply (release_accounted hdestroyed).mpr
    rw [hreceivers]
    show _ + ((broadcast2Loop { message with buffer := buffer } answers w.sessions).1.map
      (·.2.held message.id)).sum = _
    simp only [hnone, Tally.counted] at hcounted ⊢
    omega
  unfold broadcast2Direct
  cases layer with
  | absent => exact hpassed message.buffer
  | same => exact hpassed message.buffer
  | fresh bytes => exact hpassed bytes
  | null => exact (destroy_accounted hw).mpr rfl

/-- With memory, no receiver turns the message down when its turn comes if none would do so
before the broadcast. -/
theorem passes_of_memory {w : IoThread} {message : Message} {layer : Transform}
    {receivers : List (Sid × Delivery)} (hw : w.HasMemory)
    (hmsg : ∀ r ∈ receivers, r.2.msg ≠ message.id) :
    ((layer ≠ .null ∨ receivers = []) ∧ ∀ buffer, layer.apply message.buffer = some buffer →
        refusals { message with buffer := buffer } w receivers = 0) ↔
      (layer ≠ .null ∨ receivers = []) ∧ ∀ r ∈ receivers, w.turnsDown r = false := by
  have hasked : ∀ buffer, refusals { message with buffer := buffer } w receivers = 0 ↔
      ∀ r ∈ receivers, w.turnsDown r = false := fun buffer => by
    rw [refusals_of_memory hw { message with buffer := buffer } receivers hmsg, List.countP_eq_zero]
    simp
  refine and_congr_right fun hlayer => ?_
  simp only [hasked]
  cases layer with
  | null => simp [Transform.apply, hlayer.resolve_left (by simp)]
  | _ => simp [Transform.apply]

/-- The message of `_broadcast_direct` stays accounted for, whatever its sessions do later,
if and only if the layer's `transform` let it pass, should there be receivers, and no
receiver is, when its turn comes, a session of the thread that turns it down; with memory, one
can tell before the broadcast which ones do. The message of `_broadcast2_direct` always stays
accounted for. -/
theorem broadcast_accounted_iff (w : IoThread) (message : Message) (layer : Transform)
    (receivers : List (Sid × Delivery)) (answers : Sid → Delivery) (hw : w.Unknown message.id)
    (hmsg : ∀ r ∈ receivers, r.2.msg ≠ message.id) (hmsg₂ : ∀ k, (answers k).msg ≠ message.id) :
    ((w.broadcastDirect message layer receivers).StaysAccounted message.id receivers.length ↔
      (layer ≠ .null ∨ receivers = []) ∧ ∀ buffer, layer.apply message.buffer = some buffer →
        refusals { message with buffer := buffer } w receivers = 0) ∧
    (w.HasMemory →
      ((w.broadcastDirect message layer receivers).StaysAccounted message.id receivers.length ↔
        (layer ≠ .null ∨ receivers = []) ∧ ∀ r ∈ receivers, w.turnsDown r = false)) ∧
    (w.broadcast2Direct message layer answers).StaysAccounted message.id 0 := by
  have hstays := staysAccounted_iff.trans (broadcastDirect_accounted w message layer receivers hw hmsg)
  refine ⟨hstays, fun hmemory => hstays.trans (passes_of_memory hmemory hmsg), ?_⟩
  exact staysAccounted_iff.mpr (broadcast2Direct_accounted w message layer answers hw hmsg₂)

/-- A thread with two sessions. -/
def twoSessions : IoThread where
  index := 0
  sessions := [(⟨0, 0, 0⟩, { fd := 5 }), (⟨0, 0, 1⟩, { fd := 6 })]

/-- A receiver named twice, one of another thread and one that is gone. -/
def mixedReceivers : List (Sid × Delivery) :=
  [(⟨0, 0, 1⟩, {}), (⟨0, 0, 1⟩, {}), (⟨3, 0, 1⟩, {}), (⟨0, 4, 0⟩, {})]

/-- The second session of a thread transmits. -/
def secondTransmits (w : IoThread) (ios : List IoResult) : IoThread :=
  match w.sessions with
  | p :: (k, s) :: ps =>
    { w with
      sessions := [p] ++ (k, (s.settingTransmit 1024 ios).1) :: ps
      log := w.log ++ s.newEffects (s.settingTransmit 1024 ios).1 }
  | _ => w

theorem broadcast_accounted_iff_mixedReceivers :
    ((twoSessions.broadcastDirect ⟨1, [7, 8], []⟩ .absent mixedReceivers).tally 1 4 =
        { receivers := 4, nfailure := 2 }) ∧
      (secondTransmits (twoSessions.broadcastDirect ⟨1, [7, 8], []⟩ .absent mixedReceivers)
        [.wrote 9]).tally 1 4 = { receivers := 4, nsuccess := 2, nfailure := 2, destroyed := 1 } ∧
      (secondTransmits (twoSessions.broadcastDirect ⟨1, [7, 8], []⟩ .absent mixedReceivers)
        [.wrote 9]).Accounted 1 4 := by
  refine ⟨by decide +kernel, by decide +kernel, ?_⟩
  have hforever := (broadcast_accounted_iff twoSessions ⟨1, [7, 8], []⟩ .absent mixedReceivers
    (fun _ => {}) ⟨by simp [twoSessions], by decide⟩ (by simp [mixedReceivers])
    (by intro k; decide)).2.1 (by decide) |>.mpr ⟨.inl (by decide), by decide⟩
  apply hforever
  exact .single (.session [_] [] ⟨0, 0, 1⟩ _ _ rfl (.transmit rfl 1024 [.wrote 9]))

/-- The first session turns the message down and is counted twice, so the message is
destroyed while the second one still has it in its queue. -/
theorem broadcast_accounted_refused_fails :
    twoSessions.Unknown 1 ∧
      (twoSessions.broadcastDirect ⟨1, [7, 8], []⟩ .absent
        [(⟨0, 0, 0⟩, { transform := .null }), (⟨0, 0, 1⟩, {})]).tally 1 2 =
          { receivers := 2, nfailure := 2, destroyed := 1 } ∧
      (twoSessions.broadcastDirect ⟨1, [7, 8], []⟩ .absent
        [(⟨0, 0, 0⟩, { transform := .null }), (⟨0, 0, 1⟩, {})]).holders 1 = 1 ∧
      ¬(twoSessions.broadcastDirect ⟨1, [7, 8], []⟩ .absent
        [(⟨0, 0, 0⟩, { transform := .null }), (⟨0, 0, 1⟩, {})]).Accounted 1 2 := by
  refine ⟨⟨by simp [twoSessions], by decide⟩, by decide +kernel, by decide +kernel, ?_⟩
  intro h
  exact absurd h.counted (by decide +kernel)

end IoThread

end Evlite
