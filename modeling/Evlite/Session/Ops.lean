import Mathlib.Logic.Relation
import Evlite.Session.Handlers

/-!
# Primitive Operations

Calls, callbacks and the lifecycle functions nest in one another, but all they ever do to
a session is a sequence of a few primitive operations, each with a guard. `Ops s t` says
that `t` comes from `s` by such a sequence.

An invariant of sessions is then checked once per primitive operation, and holds after
every call, every callback and every lifecycle function.

## Main results

- `runCalls_ops`: a list of public calls is a sequence of primitive operations.
- `sessionShutdown_ops`, `channelShutdown_ops`: so are these two.
- `channelErrorIn_outcome`, `timeout_outcome`: an error and a timeout are such a sequence,
  followed at most by a reconnect.
- `step_conduct`: so is every step, but for the attempt to reconnect itself.
- `Ops.invariant`, `Outcome.invariant`: the invariant rules.
-/

namespace Evlite

/-! ## Operations -/

/-- The effects that stand for bytes, connections and entries into the lifecycle; all
others are only noted. -/
def Effect.isNote : Effect → Bool
  | .wrote _ | .accepted _ | .connect _ | .startReconnect _ | .drain _ _ => false
  | _ => true

/-- The effects that a descriptor is given away by. -/
def Effect.onDescriptor : Effect → Bool
  | .reattach _ | .close _ => true
  | _ => false

/-- The primitive operations on a session. -/
inductive Op where
  | note (e : Effect)
  | configure (setting : Setting)
  | buffer (bytes : List UInt8)
  | addRead
  | addWrite
  | readdRead
  | startKeepalive
  | send (buf : List UInt8) (msg : Nat) (io : IoResult)
  | push (m : Message)
  | schedule (t : ScheduleTask)
  | cancel (t : ScheduleTask)
  | close
  | drain
  | finish

namespace Op

/-- The effect of a primitive operation. -/
def run : Op → Session → Session
  | note e, s => s.emit e
  | configure setting, s => { s with setting := setting }
  | buffer bytes, s => { s with inbuffer := bytes }
  | addRead, s => s.sessionAddEvent .evRead
  | addWrite, s => s.sessionAddEvent .evWrite
  | readdRead, s => s.sessionReaddEvent .evRead
  | startKeepalive, s => s.sessionStartKeepalive
  | send buf msg io, s => (Session.accept (s.sendBuffer buf msg io) buf).1
  | push m, s =>
    let r := s.queuePush m
    (Session.accept (if r.2 = 0 then r.1.sessionAddEvent .evWrite else r.1, r.2) m.buffer).1
  | schedule t, s => { s with tasklist := t :: s.tasklist }
  | cancel t, s => { s with tasklist := s.tasklist.erase t }
  | close, s => s.sessionClose
  | drain, s =>
    let s := s.emit (.drain s.status s.evwrite.cb)
    let s := { s with status := { s.status with exiting := true } }
    (s.sessionDelEvent .evRead).sessionAddEvent .evWrite
  | finish, s => s.sessionEnd

/-- When a primitive operation is performed. Only notes are made of a session that is
gone. -/
def Enabled : Op → Session → Prop
  | note e, _ => e.isNote = true ∧ e.onDescriptor = false
  | push m, s => s.freed = false ∧ m.sent = []
  | drain, s => s.freed = false ∧ s.status.exiting = false ∧ s.sendqueue ≠ []
  | _, s => s.freed = false

end Op

namespace Op

open Session

/-- The outcomes of a send: a beginning of the payload is put on the wire, and the rest waits,
if there is any; or the send is refused, before or after the direct write. -/
inductive Sent (s : Session) (buf : List UInt8) (msg : Nat) : Session → Prop where
  | refused (hexit : s.status.exiting = true) : Sent s buf msg s
  | whole (hexit : s.status.exiting = false) (n : Nat) (t : Session) (hsent : SentDirectly s buf n t)
      (hall : buf.length ≤ n) : Sent s buf msg (t.emit (.accepted buf))
  | noMessage (n : Nat) (t : Session) (hsent : SentDirectly s buf n t) (hrest : n < buf.length)
      (hmemory : t.allocate.2 = false) : Sent s buf msg t.allocate.1
  | queued (hexit : s.status.exiting = false) (n : Nat) (t : Session) (hsent : SentDirectly s buf n t)
      (hrest : n < buf.length) : Sent s buf msg ((t.queueRest buf msg n).emit (.accepted buf))

theorem run_send (s : Session) (buf : List UInt8) (msg : Nat) (io : IoResult) :
    Sent s buf msg ((send buf msg io).run s) := by
  have hcases := sendBuffer_cases s buf msg io
  have hrun : (send buf msg io).run s = (accept (s.sendBuffer buf msg io) buf).1 := rfl
  have haccept : ∀ (t : Session) (n : Nat), (accept (t, (n : Int)) buf).1 = t.emit (.accepted buf) :=
    fun t n => congrArg Prod.fst (if_pos (Int.natCast_nonneg n))
  rw [hrun]
  generalize s.sendBuffer buf msg io = r at hcases
  obtain ⟨t, rc⟩ := r
  cases hcases with
  | refused hexit => exact .refused hexit
  | whole hexit n t hsent _ hall => exact haccept t n ▸ .whole hexit n t hsent hall
  | noMessage _ n t hsent _ hrest hmemory => exact .noMessage n t hsent hrest hmemory
  | queued hexit n t hsent _ hrest => exact haccept _ n ▸ .queued hexit n t hsent hrest

/-- A message is queued and accepted, or there was no memory for it. -/
theorem run_push (s : Session) (m : Message) :
    (s.allocate.2 = true ∧ (push m).run s =
      ((s.queuePush m).1.sessionAddEvent .evWrite).emit (.accepted m.buffer)) ∨
    (s.allocate.2 = false ∧ (push m).run s = s.allocate.1) := by
  cases hmemory : s.allocate.2 with
  | true => exact .inl ⟨rfl, by simp only [run, queuePush_of_memory m hmemory, accept]; rfl⟩
  | false => exact .inr ⟨rfl, by simp only [run, queuePush_of_none m hmemory, accept]; rfl⟩

/-- No primitive operation but the last one ends the session. -/
theorem run_freed (op : Op) (s : Session) (h : op ≠ finish) : (op.run s).freed = s.freed := by
  cases op with
  | finish => exact absurd rfl h
  | push m =>
    rcases run_push s m with ⟨-, hrun⟩ | ⟨-, hrun⟩
    · rw [hrun]
      exact sessionAddEvent_freed _ _
    · rw [hrun]
      rfl
  | send buf msg io =>
    have hrun := run_send s buf msg io
    generalize (send buf msg io).run s = u at hrun ⊢
    cases hrun with
    | refused => rfl
    | whole _ n t hsent => exact hsent.fixed.1
    | noMessage n t hsent => exact hsent.fixed.1
    | queued _ n t hsent => exact (sessionAddEvent_freed _ _).trans hsent.fixed.1
  | _ => simp [run, emit, sessionClose]

/-- What no primitive operation changes. -/
theorem run_fixed (op : Op) (s : Session) :
    (op.run s).type = s.type ∧ (op.run s).reattach = s.reattach ∧
      (op.run s).established = s.established := by
  cases op with
  | finish => simp [run, sessionEnd_eq, stopEvents]
  | push m =>
    rcases run_push s m with ⟨-, hrun⟩ | ⟨-, hrun⟩
    · rw [hrun]
      exact ⟨sessionAddEvent_type _ _, sessionAddEvent_reattach _ _, sessionAddEvent_established _ _⟩
    · rw [hrun]
      exact ⟨rfl, rfl, rfl⟩
  | send buf msg io =>
    have hrun := run_send s buf msg io
    generalize (send buf msg io).run s = u at hrun ⊢
    cases hrun with
    | refused => exact ⟨rfl, rfl, rfl⟩
    | whole _ n t hsent => exact hsent.fixed.2
    | noMessage n t hsent => exact hsent.fixed.2
    | queued _ n t hsent =>
      obtain ⟨-, htype, hreattach, hest⟩ := hsent.fixed
      exact ⟨(sessionAddEvent_type _ _).trans htype, (sessionAddEvent_reattach _ _).trans hreattach,
        (sessionAddEvent_established _ _).trans hest⟩
  | _ => simp [run, emit, sessionClose]

end Op

namespace Session

/-- One primitive operation. -/
def OpStep (s t : Session) : Prop := ∃ op : Op, op.Enabled s ∧ op.run s = t

/-- A sequence of primitive operations. -/
abbrev Ops : Session → Session → Prop := Relation.ReflTransGen OpStep

theorem Ops.single {s : Session} (op : Op) (h : op.Enabled s) : Ops s (op.run s) :=
  Relation.ReflTransGen.single ⟨op, h, rfl⟩

theorem Ops.note (s : Session) (e : Effect) (h : e.isNote = true)
    (hfd : e.onDescriptor = false) : Ops s (s.emit e) :=
  Ops.single (.note e) ⟨h, hfd⟩

/-- What every enabled primitive operation keeps, every sequence of them keeps. -/
theorem Ops.invariant {I : Session → Prop} {s t : Session} (h : Ops s t) (hs : I s)
    (hstep : ∀ (op : Op) (u : Session), I u → op.Enabled u → I (op.run u)) : I t := by
  induction h with
  | refl => exact hs
  | tail _ hop ih =>
    obtain ⟨op, hen, rfl⟩ := hop
    exact hstep op _ ih hen

/-- A continuation that is a sequence of operations on a live session. -/
theorem whenAlive_ops {s : Session} {k : Session → Session}
    (h : s.freed = false → Ops s (k s)) : Ops s (s.whenAlive k) := by
  unfold whenAlive
  split
  · exact .refl
  · rename_i halive
    exact h (by simpa using halive)

/-! ## Ending -/

theorem channelShutdown_ops (s : Session) {onShutdown : Session → Session}
    (hcb : ∀ s, Ops s (onShutdown s)) : Ops s (s.channelShutdown onShutdown) := by
  unfold channelShutdown
  generalize (if s.status.shutdowning then 0 else 1) = way
  refine (Ops.note s (.shutdown way) rfl rfl).trans ((hcb _).trans ?_)
  exact whenAlive_ops fun halive => .single .finish halive

/-- A session that is shut down by the channel does not survive. -/
@[simp] theorem channelShutdown_freed (s : Session) (onShutdown : Session → Session) :
    (s.channelShutdown onShutdown).freed = true := by
  simp only [channelShutdown, whenAlive]
  generalize onShutdown _ = t
  split
  · assumption
  · rfl

theorem sessionShutdown_ops (s : Session) (halive : s.freed = false)
    {onShutdown : Session → Session} (hcb : ∀ s, Ops s (onShutdown s)) :
    Ops s (s.sessionShutdown onShutdown) := by
  unfold sessionShutdown
  split
  · rename_i hdrain
    have hen : s.status.exiting = false ∧ s.sendqueue ≠ [] := by simpa using hdrain
    exact .single .drain ⟨halive, hen⟩
  · exact channelShutdown_ops s hcb

/-- `session_close` and then `session_shutdown`, as every caller of the former does. -/
theorem closeAndShutdown_ops (s : Session) (halive : s.freed = false)
    {onShutdown : Session → Session} (hcb : ∀ s, Ops s (onShutdown s)) :
    Ops s (s.sessionClose.sessionShutdown onShutdown) :=
  have hclose : Ops s s.sessionClose := Ops.single .close halive
  hclose.trans (sessionShutdown_ops s.sessionClose halive hcb)

/-- Shutting a session down ends it or leaves it waiting for its end. -/
theorem sessionShutdown_ends (s : Session) (onShutdown : Session → Session) :
    (s.sessionShutdown onShutdown).freed = true ∨
      (s.sessionShutdown onShutdown).status.exiting = true := by
  unfold sessionShutdown
  split
  · right
    simp
  · left
    exact channelShutdown_freed s onShutdown

/-! ## Calls -/

theorem sessionSend_ops (s : Session) (halive : s.freed = false) (buf : List UInt8)
    (transform : Transform) (msg : Nat) (io : IoResult) :
    Ops s (s.sessionSend buf transform msg io).1 := by
  unfold sessionSend
  cases transform.apply buf with
  | none => exact .refl
  | some buf' => exact .single (.send buf' msg io) halive

theorem sessionSendmessage_ops (s : Session) (halive : s.freed = false) (m : Message)
    (hm : m.sent = []) (transform : Transform) (msg : Nat) (io : IoResult) :
    Ops s (s.sessionSendmessage m transform msg io).1 := by
  have hfail : ∀ (r : Session × Int), Ops s r.1 →
      Ops s (if r.2 < 0 then r.1.emit (.messageAddFailure m.id) else r.1) := by
    intro r hr
    split
    · exact hr.trans (Ops.note _ _ rfl rfl)
    · exact hr
  cases transform with
  | fresh bytes =>
    apply hfail
    have hsend : Ops s (accept (s.sendBuffer bytes msg io) bytes).1 :=
      .single (.send bytes msg io) halive
    dsimp only
    split
    · exact hsend.trans (Ops.note _ _ rfl rfl)
    · exact hsend
  | null => exact hfail (s, -1) .refl
  | absent => exact hfail (accept (_, _) m.buffer) (.single (.push m) ⟨halive, hm⟩)
  | same => exact hfail (accept (_, _) m.buffer) (.single (.push m) ⟨halive, hm⟩)

theorem sessionSendmessage_freed (s : Session) (m : Message) (transform : Transform) (msg : Nat)
    (io : IoResult) : (s.sessionSendmessage m transform msg io).1.freed = s.freed := by
  have hsend : ∀ bytes, (accept (s.sendBuffer bytes msg io) bytes).1.freed = s.freed :=
    fun bytes => Op.run_freed (.send bytes msg io) s (by simp)
  have hpush : ((Op.push m).run s).freed = s.freed := Op.run_freed (.push m) s (by simp)
  have hfail : ∀ r : Session × Int, r.1.freed = s.freed →
      (if r.2 < 0 then r.1.emit (.messageAddFailure m.id) else r.1).freed = s.freed := by
    intro r hr
    split <;> exact hr
  unfold sessionSendmessage
  cases transform with
  | fresh bytes =>
    apply hfail
    dsimp only
    split <;> exact hsend bytes
  | null => exact hfail (s, -1) rfl
  | absent => exact hfail (accept (_, _) m.buffer) hpush
  | same => exact hfail (accept (_, _) m.buffer) hpush

theorem broadcastDirect_ops (s : Session) (halive : s.freed = false) (m : Message)
    (hm : m.sent = []) (deliveries : List Delivery) :
    Ops s (s.broadcastDirect m deliveries) := by
  unfold broadcastDirect
  induction deliveries generalizing s with
  | nil => exact .refl
  | cons d ds ih =>
    rw [List.foldl_cons]
    exact (sessionSendmessage_ops s halive m hm d.transform d.msg d.io).trans
      (ih _ ((sessionSendmessage_freed s m d.transform d.msg d.io).trans halive))

theorem sessionScheduleTask_ops (s : Session) (halive : s.freed = false) (type : Int)
    (t : TaskPtr) (interval : Int) (recycle : Nat) (addr : Option Nat) (event : Bool) :
    Ops s (s.sessionScheduleTask type t interval recycle addr event).1 := by
  unfold sessionScheduleTask
  split
  · exact .refl
  · cases addr with
    | none => exact .refl
    | some addr =>
      dsimp only
      split
      · exact .refl
      · exact .single (.schedule _) halive

theorem performDirect_ops (s : Session) (halive : s.freed = false) (req : PerformRequest)
    {calls : Session → Session} (rc : Int) {onShutdown : Session → Session}
    (hcalls : ∀ s, Ops s (calls s)) (hcb : ∀ s, Ops s (onShutdown s)) :
    Ops s (s.performDirect req calls rc onShutdown).1 := by
  unfold performDirect recycleRequest
  split
  · -- executed at once
    refine (Ops.note s (.perform req.recycle req.type req.task req.interval) rfl rfl).trans
      ((hcalls _).trans ?_)
    dsimp only
    split
    · apply whenAlive_ops
      intro hback
      exact (closeAndShutdown_ops _ hback hcb).trans (Ops.note _ _ rfl rfl)
    · exact Ops.note _ _ rfl rfl
  · have htask := sessionScheduleTask_ops s halive req.type req.task req.interval req.recycle
      req.addr req.event
    dsimp only
    split
    · exact htask.trans (Ops.note _ _ rfl rfl)
    · exact htask

mutual

theorem runCall_ops (c : Call) (s : Session) : Ops s (runCall c s) := by
  cases c with
  | setPersist onoff =>
    rw [runCall]
    exact whenAlive_ops fun h => .single (.configure _) h
  | setTimeout seconds =>
    rw [runCall]
    exact whenAlive_ops fun h => (Ops.single (.configure _) h).trans (Ops.single .readdRead h)
  | setKeepalive seconds =>
    rw [runCall]
    exact whenAlive_ops fun h => (Ops.single (.configure _) h).trans (Ops.single .startKeepalive h)
  | setSndqlimit queuelimit =>
    rw [runCall]
    exact whenAlive_ops fun h => .single (.configure _) h
  | setOther => rw [runCall]
  | send req =>
    rw [runCall]
    refine whenAlive_ops fun h => ?_
    unfold sendDirect
    cases req.layer.apply req.buf with
    | none => exact .refl
    | some buffer => exact sessionSend_ops s h _ _ _ _
  | broadcast id buffer deliveries =>
    rw [runCall]
    exact whenAlive_ops fun h => broadcastDirect_ops s h _ rfl deliveries
  -- a task for a session that is gone is only recycled
  | perform req calls rc onShutdown =>
    rw [runCall]
    split
    · exact Ops.note _ _ rfl rfl
    · rename_i halive
      exact performDirect_ops s (by simpa using halive) req rc (runCalls_ops calls)
        (runCalls_ops onShutdown)
  | shutdown => rw [runCall]
  | shutdowns => rw [runCall]

theorem runCalls_ops (cs : List Call) (s : Session) : Ops s (runCalls cs s) := by
  cases cs with
  | nil => rw [runCalls]
  | cons c cs =>
    rw [runCalls]
    exact (runCall_ops c s).trans (runCalls_ops cs _)

end

theorem Callback.run_ops (cb : Callback) (s : Session) : Ops s (cb.run s) :=
  runCalls_ops cb.calls s

/-! ## Errors and timeouts -/

theorem sessionIsReattch_eq {s t : Session} (h : Ops s t) :
    t.sessionIsReattch = s.sessionIsReattch := by
  have hfixed : t.type = s.type ∧ t.reattach = s.reattach :=
    h.invariant (I := fun t => t.type = s.type ∧ t.reattach = s.reattach) ⟨rfl, rfl⟩
      fun op u hu _ =>
        have hop := op.run_fixed u
        ⟨hop.1.trans hu.1, hop.2.1.trans hu.2⟩
  simp only [sessionIsReattch, hfixed]

/-- How the code that reacts to an error or a timeout can leave a session. -/
inductive Outcome (s t : Session) : Prop where
  /-- No reconnect: the session is over, about to be, or a temporary one. -/
  | settled (h : Ops s t)
      (hend : t.freed = true ∨ t.status.exiting = true ∨ s.sessionIsReattch = false)
  /-- The last thing is a call of `session_start_reconnect`. -/
  | reconnect (u : Session) (h : Ops s u) (halive : u.freed = false)
      (hexit : u.status.exiting = false) (ht : t = u.sessionStartReconnect.1)

theorem Outcome.trans {s t u : Session} (hops : Ops s t) (h : Outcome t u) : Outcome s u := by
  cases h with
  | settled h hend => exact .settled (hops.trans h) (by rwa [sessionIsReattch_eq hops] at hend)
  | reconnect v h halive hexit ht => exact .reconnect v (hops.trans h) halive hexit ht

/-- An error ends the session, or the last thing is a call of `session_start_reconnect`. -/
theorem channelErrorIn_cases (s : Session) (env : Env) (result : IoError) :
    (Ops s (s.channelErrorIn env result) ∧ (s.channelErrorIn env result).freed = true) ∨
      ∃ u, Ops s u ∧ u.freed = false ∧ u.status.exiting = false ∧
        s.channelErrorIn env result = u.sessionStartReconnect.1 := by
  unfold channelErrorIn channelError
  have hcb : Ops s (env.error.run (s.emit (.error result))) :=
    (Ops.note s (.error result) rfl rfl).trans (Callback.run_ops _ _)
  generalize hu : env.error.run (s.emit (.error result)) = u at hcb
  cases hfreed : u.freed with
  | true =>
    rw [whenAlive_freed hfreed]
    exact .inl ⟨hcb, hfreed⟩
  | false =>
    simp only [whenAlive_alive hfreed]
    split
    · exact .inl ⟨hcb.trans (channelShutdown_ops u (runCalls_ops env.shutdown)),
        channelShutdown_freed _ _⟩
    · rename_i hstay
      have hexit : u.status.exiting = false := by
        simp only [Bool.or_eq_true, not_or] at hstay
        simpa using hstay.2
      exact .inr ⟨u, hcb, hfreed, hexit, rfl⟩

theorem channelErrorIn_outcome (s : Session) (env : Env) (result : IoError) :
    Outcome s (s.channelErrorIn env result) := by
  rcases channelErrorIn_cases s env result with ⟨h, hfreed⟩ | ⟨u, h, halive, hexit, ht⟩
  · exact .settled h (.inl hfreed)
  · exact .reconnect u h halive hexit ht

theorem timeout_outcome (s : Session) (env : Env) : Outcome s (s.timeout env) := by
  unfold timeout
  refine Outcome.trans (Callback.run_ops env.timeout s) ?_
  generalize env.timeout.run s = u
  cases hfreed : u.freed with
  | true =>
    rw [whenAlive_freed hfreed]
    exact .settled .refl (.inl hfreed)
  | false =>
    simp only [whenAlive_alive hfreed]
    split
    · have hend := sessionShutdown_ends u (runCalls env.shutdown)
      exact .settled (sessionShutdown_ops u hfreed (runCalls_ops env.shutdown))
        (hend.imp_right .inl)
    · rename_i hstay
      -- the session goes on: it reconnects, or waits for data again
      have hexit : u.status.exiting = false := by
        simp only [Bool.or_eq_true, not_or] at hstay
        simpa using hstay.2
      split
      · exact .reconnect u .refl hfreed hexit rfl
      · rename_i htemp
        have hread : Ops u (u.sessionAddEvent .evRead) := Ops.single .addRead hfreed
        have hkeep : Ops (u.sessionAddEvent .evRead)
            (u.sessionAddEvent .evRead).sessionStartKeepalive :=
          Ops.single .startKeepalive ((sessionAddEvent_freed u .evRead).trans hfreed)
        exact .settled (hread.trans hkeep) (.inr (.inr (by simpa using htemp)))

/-! ## Handlers -/

theorem process_ops (s : Session) (cb : Callback) :
    Ops s (s.process cb).1 := by
  unfold process
  split
  · exact .refl
  · refine (Ops.note s (.process s.inbuffer) rfl rfl).trans ((Callback.run_ops cb _).trans ?_)
    dsimp only
    apply whenAlive_ops
    intro hback
    split
    · exact .single (.buffer _) hback
    · exact .refl

/-- The courses `channel_on_read` can take after it cleared its flag. -/
inductive ReadCourse (ev : EvMask) (env : Env) (s t : Session) : Prop where
  /-- The service ended the session. -/
  | ended (h : Ops s t) (hfreed : t.freed = true)
  /-- All is well, and the read event is in the event set again, or still. -/
  | rearmed (hread : ev.read = true) (hok : readError env.read = none) (u : Session)
      (h : Ops s u) (halive : u.freed = false)
      (ht : t = if u.setting.persistMode then u else u.sessionAddEvent .evRead)
  /-- An error, a timeout or the service's wish. -/
  | failed (u : Session) (h : Ops s u) (halive : u.freed = false)
      (ht : Outcome u.delPersistentRead t)

theorem delPersistentRead_freed (s : Session) : s.delPersistentRead.freed = s.freed := by
  unfold delPersistentRead
  split <;> simp

theorem sessionShutdown_outcome (s : Session) (halive : s.freed = false)
    {onShutdown : Session → Session} (hcb : ∀ s, Ops s (onShutdown s)) :
    Outcome s (s.sessionShutdown onShutdown) :=
  .settled (sessionShutdown_ops s halive hcb) ((sessionShutdown_ends s onShutdown).imp_right .inl)

theorem channelOnRead_course (s : Session) (halive : s.freed = false) (ev : EvMask) (env : Env) :
    ReadCourse ev env s.clearReading (s.channelOnRead ev env) := by
  unfold channelOnRead
  have hclear : s.clearReading.freed = false := by
    unfold clearReading
    split <;> exact halive
  generalize s.clearReading = s at hclear
  dsimp only
  split
  · rename_i hread
    -- the descriptor is readable
    have hreceive : Ops s (s.receive env.read) := by
      cases env.read with
      | data bytes => exact .single (.buffer _) hclear
      | _ => exact .refl
    generalize s.receive env.read = s' at hreceive
    have hprocess : ∃ u n, Ops s u ∧
        (if env.running then s'.process env.process else (s', 0)) = (u, n) := by
      split
      · exact ⟨_, _, hreceive.trans (process_ops s' env.process), rfl⟩
      · exact ⟨s', 0, hreceive, rfl⟩
    obtain ⟨u, n, hu, hrun⟩ := hprocess
    simp only [hrun]
    cases hfreed : u.freed with
    | true =>
      rw [whenAlive_freed hfreed]
      exact .ended hu hfreed
    | false =>
      simp only [whenAlive_alive hfreed, afterProcess]
      have hdel : u.delPersistentRead.freed = false := (delPersistentRead_freed u).trans hfreed
      split
      · exact .failed u hu hfreed (sessionShutdown_outcome _ hdel (runCalls_ops env.shutdown))
      · cases hok : readError env.read with
        | none => exact .rearmed hread hok u hu hfreed rfl
        | some e => exact .failed u hu hfreed (channelErrorIn_outcome _ env e)
  · exact .failed s .refl hclear (timeout_outcome _ env)

theorem channelUdpprocess_ops (s : Session) (halive : s.freed = false) (bytes : List UInt8)
    (env : Env) : Ops s (s.channelUdpprocess bytes env) := by
  unfold channelUdpprocess
  have hreadd : Ops s (s.sessionReaddEvent .evRead) := Ops.single .readdRead halive
  refine hreadd.trans ?_
  have hread : (s.sessionReaddEvent .evRead).freed = false :=
    (sessionReaddEvent_freed s .evRead).trans halive
  generalize s.sessionReaddEvent .evRead = u at hread ⊢
  have hbuffer : Ops u { u with inbuffer := u.inbuffer ++ bytes } := Ops.single (.buffer _) hread
  refine hbuffer.trans ((process_ops _ env.process).trans ?_)
  dsimp only
  apply whenAlive_ops
  intro hback
  split
  · exact sessionShutdown_ops _ hback (runCalls_ops env.shutdown)
  · exact .refl

theorem channelOnKeepalive_ops (s : Session) (env : Env) :
    Ops { s with status := { s.status with keepaliving := false } } (s.channelOnKeepalive env) := by
  unfold channelOnKeepalive
  refine (Callback.run_ops env.keepalive _).trans ?_
  apply whenAlive_ops
  intro hback
  split
  · exact .single .startKeepalive hback
  · exact .refl

theorem channelOnSchedule_ops (s : Session) (t : ScheduleTask) (env : Env) :
    Ops s (s.channelOnSchedule t env) := by
  unfold channelOnSchedule
  refine (Ops.note s (.perform t.recycle t.type t.task t.interval) rfl rfl).trans
    ((Callback.run_ops env.perform _).trans ?_)
  dsimp only
  generalize env.perform.run _ = u
  apply whenAlive_ops
  intro hback
  have hcancel : Ops u (u.sessionCancelTask t) :=
    (Ops.single (.cancel t) hback).trans (Ops.note _ (recycleEffect t) rfl rfl)
  have hcancelled : (u.sessionCancelTask t).freed = false := hback
  split
  · exact hcancel.trans (closeAndShutdown_ops _ hcancelled (runCalls_ops env.shutdown))
  · exact hcancel

/-- What becomes of a session after a transmission that did not fail. -/
theorem afterTransmit_cases (s : Session) (env : Env) :
    (s.sendqueue ≠ [] ∧ s.afterTransmit env = s.sessionAddEvent .evWrite) ∨
      Outcome s (s.afterTransmit env) ∨
      (s.sendqueue = [] ∧ s.status.exiting = false ∧ s.afterTransmit env = s) := by
  unfold afterTransmit
  cases hqueue : s.sendqueue with
  | nil =>
    cases hexit : s.status.exiting with
    | false => exact .inr (.inr ⟨rfl, rfl, by simp⟩)
    | true =>
      refine .inr (.inl ?_)
      simp only [List.isEmpty_nil, Bool.not_true, Bool.false_eq_true, if_false, if_true]
      exact .settled (channelShutdown_ops s (runCalls_ops env.shutdown))
        (.inl (channelShutdown_freed _ _))
  | cons m q =>
    simp only [List.isEmpty_cons, Bool.not_false, if_true]
    split
    · exact .inl ⟨by simp, rfl⟩
    · exact .inr (.inl (channelErrorIn_outcome s env .sendQueueLimit))

/-- The session after `session_sendqueue_take` on a connection just established. -/
def takeQueue (s : Session) : Session :=
  ({ s with established := true } : Session).sessionSendqueueTake.1

theorem reconnected_connected (s : Session) {ev : EvMask} {env : Env} (hwrite : ev.write = true)
    (hconn : env.connected = true) :
    s.reconnected ev env =
      (env.start.run s.clearWriting.takeQueue).whenAlive (resume · s.clearWriting.sendqueue) := by
  unfold reconnected
  rw [if_pos hwrite, if_neg (by simp [hconn])]
  rfl

/-- What happens once the queue taken away is back. -/
theorem resume_ops (s : Session) (halive : s.freed = false) (q : List Message) :
    Ops (s.sessionSendqueueMerge q) (s.resume q) := by
  unfold resume
  have hmerge : (s.sessionSendqueueMerge q).freed = false :=
    (sessionSendqueueMerge_freed s q).trans halive
  generalize s.sessionSendqueueMerge q = s at hmerge
  have hread : (s.sessionAddEvent .evRead).freed = false :=
    (sessionAddEvent_freed s _).trans hmerge
  have hwrite : ((s.sessionAddEvent .evRead).sessionAddEvent .evWrite).freed = false :=
    (sessionAddEvent_freed _ _).trans hread
  have h₁ : Ops s (s.sessionAddEvent .evRead) := Ops.single .addRead hmerge
  have h₂ : Ops _ ((s.sessionAddEvent .evRead).sessionAddEvent .evWrite) :=
    Ops.single .addWrite hread
  have h₃ : Ops _ ((s.sessionAddEvent .evRead).sessionAddEvent .evWrite).sessionStartKeepalive :=
    Ops.single .startKeepalive hwrite
  exact h₁.trans (h₂.trans h₃)

theorem reconnected_failed (s : Session) {ev : EvMask} {env : Env} (hwrite : ev.write = true)
    (hconn : env.connected = false) :
    s.reconnected ev env = s.clearWriting.channelErrorIn env .connectStatus := by
  unfold reconnected
  rw [if_pos hwrite, if_pos (by simp [hconn])]

theorem reconnected_timeout (s : Session) {ev : EvMask} (env : Env) (hwrite : ev.write = false) :
    s.reconnected ev env = s.clearWriting.timeout env := by
  unfold reconnected
  rw [if_neg (by simp [hwrite])]

/-! ## The system -/

/-- A session before `session_start`. -/
def created (reattach : Bool) (env : Env) : Session :=
  { reattach := reattach, memory := env.memory, poller := env.poller }

/-- A session as `session_start` leaves it. -/
def started (reattach : Bool) (type : SessionType) (fd : Int) (env : Env) : Session :=
  (created reattach env).sessionStart type fd env

theorem started_ops (reattach : Bool) (type : SessionType) (fd : Int) (env : Env) :
    Ops { created reattach env with fd := fd, type := type } (started reattach type fd env) := by
  unfold started sessionStart
  refine (Callback.run_ops env.start _).trans ?_
  apply whenAlive_ops
  intro hback
  have hread : Ops _ ((env.start.run { created reattach env with fd := fd, type := type }).sessionAddEvent
      .evRead) := Ops.single .addRead hback
  refine hread.trans (Ops.single .startKeepalive ?_)
  exact (sessionAddEvent_freed _ _).trans hback

/-- Only a live session takes steps. -/
theorem step_alive {iovMax : Nat} {s t : Session} {i : Input} (h : step iovMax s i = some t) :
    s.freed = false := by
  cases hfreed : s.freed with
  | false => rfl
  | true => cases i <;> simp [step, hfreed] at h

/-- What a step does, by its input and the callback it runs. -/
inductive StepCase (iovMax : Nat) (s : Session) : Input → Session → Prop where
  | report (w : Which) (res : EvMask) (hinserted : (s.event w).inserted = true)
      (hres : reportable (s.event w).events res = true) :
      StepCase iovMax s (.report w res) (s.setEvent w ((s.event w).eventActive res))
  | expire (w : Which) (htimer : (s.event w).timer = true) :
      StepCase iovMax s (.expire w) (s.setEvent w (s.event w).timerExpire)
  | uninstalled (w : Which) (env : Env) (hactive : (s.event w).active = true)
      (hcb : (s.event w).cb = none) :
      StepCase iovMax s (.deliver w env) (s.setEvent w (s.event w).processActive)
  | onRead (w : Which) (env : Env) (hactive : (s.event w).active = true)
      (hcb : (s.event w).cb = some .onRead) :
      StepCase iovMax s (.deliver w env)
        ((s.setEvent w (s.event w).processActive).channelOnRead (s.event w).results env)
  | onWrite (w : Which) (env : Env) (hactive : (s.event w).active = true)
      (hcb : (s.event w).cb = some .onWrite) :
      StepCase iovMax s (.deliver w env)
        ((s.setEvent w (s.event w).processActive).channelOnWrite iovMax (s.event w).results env)
  | onKeepalive (w : Which) (env : Env) (hactive : (s.event w).active = true)
      (hcb : (s.event w).cb = some .onKeepalive) :
      StepCase iovMax s (.deliver w env)
        ((s.setEvent w (s.event w).processActive).channelOnKeepalive env)
  | onReconnect (w : Which) (env : Env) (hactive : (s.event w).active = true)
      (hcb : (s.event w).cb = some .onReconnect) :
      StepCase iovMax s (.deliver w env)
        ((s.setEvent w (s.event w).processActive).channelOnReconnect env)
  | reconnected (w : Which) (env : Env) (hactive : (s.event w).active = true)
      (hcb : (s.event w).cb = some .reconnected) :
      StepCase iovMax s (.deliver w env)
        ((s.setEvent w (s.event w).processActive).reconnected (s.event w).results env)
  | onSchedule (w : Which) (env : Env) (hactive : (s.event w).active = true)
      (hcb : (s.event w).cb = some .onSchedule) :
      StepCase iovMax s (.deliver w env) (s.setEvent w (s.event w).processActive)
  | answers (memory poller : List Bool) :
      StepCase iovMax s (.answers memory poller) { s with memory := memory, poller := poller }
  /-- A task or a datagram. -/
  | ops (i : Input) (t : Session) (hi : ∀ w env, i ≠ .deliver w env) (h : Ops s t) :
      StepCase iovMax s i t

theorem step_cases {iovMax : Nat} {s t : Session} {i : Input} (h : step iovMax s i = some t) :
    StepCase iovMax s i t := by
  have halive := step_alive h
  cases i with
  | report w res =>
    simp only [step] at h
    split at h
    · rename_i hen
      simp only [Bool.and_eq_true] at hen
      cases h
      exact .report w res hen.1.2 hen.2
    · cases h
  | expire w =>
    simp only [step] at h
    split at h
    · rename_i hen
      simp only [Bool.and_eq_true] at hen
      cases h
      exact .expire w hen.2
    · cases h
  | deliver w env =>
    simp only [step] at h
    split at h
    · rename_i hen
      have hactive : (s.event w).active = true := by
        simp only [Bool.and_eq_true] at hen
        exact hen.2
      cases h
      -- which handler runs is decided by the callback of the event
      cases hcb : (s.event w).cb with
      | none => exact .uninstalled w env hactive hcb
      | some cb =>
        cases cb with
        | onRead => exact .onRead w env hactive hcb
        | onWrite => exact .onWrite w env hactive hcb
        | onKeepalive => exact .onKeepalive w env hactive hcb
        | onReconnect => exact .onReconnect w env hactive hcb
        | reconnected => exact .reconnected w env hactive hcb
        | onSchedule => exact .onSchedule w env hactive hcb
    · cases h
  | datagram bytes env =>
    simp only [step] at h
    split at h
    · cases h
      exact .ops _ _ (by simp) (channelUdpprocess_ops s halive bytes env)
    · cases h
  | schedule t env =>
    simp only [step] at h
    split at h
    · cases h
      exact .ops _ _ (by simp) (channelOnSchedule_ops s t env)
    · cases h
  | call c =>
    simp only [step, halive, Bool.false_eq_true, if_false, Option.some.injEq] at h
    exact .ops _ _ (by simp) (h ▸ runCall_ops c s)
  | shutdown env =>
    simp only [step, halive, Bool.false_eq_true, if_false, Option.some.injEq] at h
    exact .ops _ _ (by simp) (h ▸ closeAndShutdown_ops s halive (runCalls_ops env.shutdown))
  | answers memory poller =>
    have hrun : step iovMax s (.answers memory poller) =
        some { s with memory := memory, poller := poller } := if_neg (by rw [halive]; decide)
    obtain rfl := Option.some.inj (hrun.symm.trans h)
    exact .answers memory poller

theorem deliver_active {iovMax : Nat} {s t : Session} {w : Which} {env : Env}
    (h : step iovMax s (.deliver w env) = some t) : (s.event w).active = true := by
  cases hactive : (s.event w).active with
  | true => rfl
  | false => simp [step, hactive] at h

/-- The pieces every step is made of: primitive operations, and what only handlers do. -/
inductive Move (s : Session) : Session → Prop where
  | op (op : Op) (hen : op.Enabled s) : Move s (op.run s)
  | setEvent (halive : s.freed = false) (w : Which) (e : EventView Handler)
      (hcb : e.cb = (s.event w).cb) : Move s (s.setEvent w e)
  | setStatus (halive : s.freed = false) (status : Status) : Move s { s with status := status }
  | answers (halive : s.freed = false) (memory poller : List Bool) :
      Move s { s with memory := memory, poller := poller }
  | delRead (halive : s.freed = false) : Move s (s.sessionDelEvent .evRead)
  | transmit (halive : s.freed = false) (iovMax : Nat) (ios : List IoResult) :
      Move s (s.settingTransmit iovMax ios).1
  | startReconnect (halive : s.freed = false) : Move s s.sessionStartReconnect.1
  | reconnectFd (halive : s.freed = false) (env : Env) : Move s (s.reconnectFd env)
  | awaitConnection (halive : s.freed = false) : Move s s.awaitConnection
  | takeQueue (halive : s.freed = false) : Move s s.takeQueue
  | merge (halive : s.freed = false) (q : List Message) : Move s (s.sessionSendqueueMerge q)

/-- A sequence of pieces. -/
abbrev Moves : Session → Session → Prop := Relation.ReflTransGen Move

theorem Moves.invariant {I : Session → Prop} {s t : Session} (h : Moves s t) (hs : I s)
    (hmove : ∀ u v, I u → Move u v → I v) : I t := by
  induction h with
  | refl => exact hs
  | tail _ hstep ih => exact hmove _ _ ih hstep

/-- The pieces that leave the descriptor of a live session and the delay before a reconnect
alone. -/
inductive Calm (s : Session) : Session → Prop where
  | op (op : Op) (hen : op.Enabled s) : Calm s (op.run s)
  | setEvent (halive : s.freed = false) (w : Which) (e : EventView Handler)
      (hcb : e.cb = (s.event w).cb) : Calm s (s.setEvent w e)
  | setStatus (halive : s.freed = false) (status : Status)
      (hwriting : status.writing = true → s.status.writing = true) :
      Calm s { s with status := status }
  | answers (halive : s.freed = false) (memory poller : List Bool) :
      Calm s { s with memory := memory, poller := poller }
  | delRead (halive : s.freed = false) : Calm s (s.sessionDelEvent .evRead)
  | transmit (halive : s.freed = false) (iovMax : Nat) (ios : List IoResult) :
      Calm s (s.settingTransmit iovMax ios).1
  | takeQueue (halive : s.freed = false) : Calm s s.takeQueue
  | merge (halive : s.freed = false) (q : List Message) : Calm s (s.sessionSendqueueMerge q)

theorem Calm.move {s t : Session} (h : Calm s t) : Move s t := by
  cases h with
  | op op hen => exact .op op hen
  | setEvent halive w e hcb => exact .setEvent halive w e hcb
  | setStatus halive status => exact .setStatus halive status
  | answers halive memory poller => exact .answers halive memory poller
  | delRead halive => exact .delRead halive
  | transmit halive iovMax ios => exact .transmit halive iovMax ios
  | takeQueue halive => exact .takeQueue halive
  | merge halive q => exact .merge halive q

/-- A sequence of calm pieces. -/
abbrev Calms : Session → Session → Prop := Relation.ReflTransGen Calm

theorem Calms.invariant {I : Session → Prop} {s t : Session} (h : Calms s t) (hs : I s)
    (hcalm : ∀ u v, I u → Calm u v → I v) : I t := by
  induction h with
  | refl => exact hs
  | tail _ hstep ih => exact hcalm _ _ ih hstep

theorem Ops.calms {s t : Session} (h : Ops s t) : Calms s t := by
  induction h with
  | refl => exact .refl
  | tail _ hop ih =>
    obtain ⟨op, hen, rfl⟩ := hop
    exact ih.tail (.op op hen)

theorem Calms.moves {s t : Session} (h : Calms s t) : Moves s t := by
  induction h with
  | refl => exact .refl
  | tail _ hcalm ih => exact ih.tail hcalm.move

theorem Ops.moves {s t : Session} (h : Ops s t) : Moves s t := h.calms.moves

/-- What a handler does: calm pieces, and at most one call of `session_start_reconnect`, which
is the last thing. -/
inductive Conduct (s t : Session) : Prop where
  | calm (h : Calms s t)
  | reconnect (u : Session) (h : Calms s u) (halive : u.freed = false)
      (hexit : u.status.exiting = false) (ht : t = u.sessionStartReconnect.1)

theorem Conduct.head {s t u : Session} (h : Calms s u) (hconduct : Conduct u t) : Conduct s t := by
  cases hconduct with
  | calm h' => exact .calm (h.trans h')
  | reconnect v h' halive hexit ht => exact .reconnect v (h.trans h') halive hexit ht

theorem Conduct.moves {s t : Session} (h : Conduct s t) : Moves s t := by
  cases h with
  | calm h => exact h.moves
  | reconnect u h halive _ ht => exact h.moves.tail (ht ▸ .startReconnect halive)

theorem Ops.conduct {s t : Session} (h : Ops s t) : Conduct s t := .calm h.calms

theorem Outcome.conduct {s t : Session} (h : Outcome s t) : Conduct s t := by
  cases h with
  | settled h => exact h.conduct
  | reconnect u h halive hexit ht => exact .reconnect u h.calms halive hexit ht

private theorem clearWriting_calms (s : Session) (halive : s.freed = false) :
    Calms s s.clearWriting :=
  .single (.setStatus halive { s.status with writing := false } fun h => by cases h)

private theorem channelOnRead_conduct (s : Session) (halive : s.freed = false) (ev : EvMask)
    (env : Env) : Conduct s (s.channelOnRead ev env) := by
  have hclear : Calms s s.clearReading := by
    unfold clearReading
    split
    · exact .refl
    · exact .single (.setStatus halive _ id)
  refine .head hclear ?_
  cases channelOnRead_course s halive ev env with
  | ended h => exact h.conduct
  | rearmed _ _ u h hu ht =>
    rw [ht]
    split
    · exact h.conduct
    · exact .calm (h.calms.tail (.op .addRead hu))
  | failed u h hu ht =>
    have hdel : Calms u u.delPersistentRead := by
      unfold delPersistentRead
      split
      · exact .single (.delRead hu)
      · exact .refl
    exact .head (h.calms.trans hdel) ht.conduct

private theorem channelOnWrite_conduct (s : Session) (halive : s.freed = false) (iovMax : Nat)
    (ev : EvMask) (env : Env) : Conduct s (s.channelOnWrite iovMax ev env) := by
  refine .head (clearWriting_calms s halive) ?_
  unfold channelOnWrite
  have hcleared : s.clearWriting.freed = false := halive
  generalize s.clearWriting = u at hcleared
  dsimp only
  split
  · split
    · -- the transmission comes before everything else
      refine .head (.single (.transmit hcleared iovMax env.writev)) ?_
      have hfreed : (u.settingTransmit iovMax env.writev).1.freed = false := by
        obtain ⟨_, _, _, -, h⟩ := settingTransmit_frame u iovMax env.writev
        rw [h]
        exact hcleared
      generalize u.settingTransmit iovMax env.writev = r at hfreed
      split
      · exact (channelErrorIn_outcome r.1 env .writeFailure).conduct
      · rcases afterTransmit_cases r.1 env with ⟨-, h⟩ | h | ⟨-, -, h⟩
        · rw [h]
          exact .calm (.single (.op .addWrite hfreed))
        · exact h.conduct
        · rw [h]
          exact .calm .refl
    · exact .calm .refl
  · exact (channelShutdown_ops u (runCalls_ops env.shutdown)).conduct

private theorem channelOnReconnect_moves (s : Session) (halive : s.freed = false) (env : Env) :
    Moves s (s.channelOnReconnect env) := by
  refine (clearWriting_calms s halive).moves.trans ?_
  unfold channelOnReconnect
  have hcleared : s.clearWriting.freed = false := halive
  generalize s.clearWriting = u at hcleared
  refine .head (.reconnectFd hcleared env) ?_
  have hfd : (u.reconnectFd env).freed = false := by
    unfold reconnectFd
    split <;> exact hcleared
  dsimp only
  split
  · exact (channelErrorIn_outcome _ env .connectFailure).conduct.moves
  · exact .single (.awaitConnection hfd)

private theorem reconnected_conduct (s : Session) (halive : s.freed = false) (ev : EvMask)
    (env : Env) : Conduct s (s.reconnected ev env) := by
  refine .head (clearWriting_calms s halive) ?_
  have hcleared : s.clearWriting.freed = false := halive
  cases hwrite : ev.write with
  | false =>
    rw [reconnected_timeout s env hwrite]
    exact (timeout_outcome _ env).conduct
  | true =>
    cases hconn : env.connected with
    | false =>
      rw [reconnected_failed s hwrite hconn]
      exact (channelErrorIn_outcome _ env .connectStatus).conduct
    | true =>
      rw [reconnected_connected s hwrite hconn]
      have hstart := (Callback.run_ops env.start s.clearWriting.takeQueue).calms
      -- take the queue, run the callback, put the queue behind what it queued
      refine .head (.head (.takeQueue hcleared) hstart) ?_
      generalize env.start.run s.clearWriting.takeQueue = u
      cases hfreed : u.freed with
      | true =>
        rw [whenAlive_freed hfreed]
        exact .calm .refl
      | false =>
        rw [whenAlive_alive hfreed]
        refine .head (.single (.merge hfreed s.clearWriting.sendqueue)) (Ops.conduct ?_)
        exact resume_ops u hfreed _

/-- A step is the conduct of a handler, unless it delivers the timer of a reconnect. -/
theorem step_conduct {iovMax : Nat} {s t : Session} {i : Input} (h : step iovMax s i = some t) :
    Conduct s t ∨ ∃ w env, i = .deliver w env ∧ (s.event w).cb = some .onReconnect ∧
      t = (s.setEvent w (s.event w).processActive).channelOnReconnect env := by
  have halive := step_alive h
  have htake : ∀ w, Calms s (s.setEvent w (s.event w).processActive) ∧
      (s.setEvent w (s.event w).processActive).freed = false := fun w =>
    ⟨.single (.setEvent halive w _ (by simp)), by cases w <;> exact halive⟩
  cases step_cases h with
  | report w res => exact .inl (.calm (.single (.setEvent halive w _ (by simp))))
  | expire w => exact .inl (.calm (.single (.setEvent halive w _ (by simp))))
  | uninstalled w => exact .inl (.calm (htake w).1)
  | onRead w env => exact .inl (.head (htake w).1 (channelOnRead_conduct _ (htake w).2 _ env))
  | onWrite w env =>
    exact .inl (.head (htake w).1 (channelOnWrite_conduct _ (htake w).2 iovMax _ env))
  | onKeepalive w env =>
    have hclear : Calm (s.setEvent w (s.event w).processActive) _ := Calm.setStatus (htake w).2
      { (s.setEvent w (s.event w).processActive).status with keepaliving := false } id
    exact .inl (.calm (((htake w).1.tail hclear).trans (channelOnKeepalive_ops _ env).calms))
  | onReconnect w env _ hcb => exact .inr ⟨w, env, rfl, hcb, rfl⟩
  | reconnected w env => exact .inl (.head (htake w).1 (reconnected_conduct _ (htake w).2 _ env))
  | onSchedule w => exact .inl (.calm (htake w).1)
  | answers memory poller => exact .inl (.calm (.single (.answers halive memory poller)))
  | ops _ _ _ h => exact .inl h.conduct

/-- Every step is a sequence of pieces. -/
theorem step_moves {iovMax : Nat} {s t : Session} {i : Input} (h : step iovMax s i = some t) :
    Moves s t := by
  have halive := step_alive h
  rcases step_conduct h with hconduct | ⟨w, env, -, -, rfl⟩
  · exact hconduct.moves
  · have htaken : (s.setEvent w (s.event w).processActive).freed = false := by
      cases w <;> exact halive
    exact .head (.setEvent halive w _ (by simp)) (channelOnReconnect_moves _ htaken env)

/-! ## What only grows -/

/-- The records of a session only grow, and some fields never change. -/
structure Grows (s t : Session) : Prop where
  trace : s.trace <+: t.trace
  watched : s.watched <+: t.watched
  type : t.type = s.type
  reattach : t.reattach = s.reattach

theorem Grows.refl (s : Session) : Grows s s :=
  ⟨List.prefix_refl _, List.prefix_refl _, rfl, rfl⟩

theorem Grows.trans {s t u : Session} (h₁ : Grows s t) (h₂ : Grows t u) : Grows s u :=
  ⟨h₁.trace.trans h₂.trace, h₁.watched.trans h₂.watched, h₂.type.trans h₁.type,
    h₂.reattach.trans h₁.reattach⟩

/-- A step that records some effects and watches no descriptor. -/
theorem Grows.records {s t : Session} (es : List Effect) (htrace : t.trace = s.trace ++ es)
    (hwatched : t.watched = s.watched) (htype : t.type = s.type)
    (hreattach : t.reattach = s.reattach) : Grows s t :=
  ⟨⟨es, htrace.symm⟩, ⟨[], by simp [hwatched]⟩, htype, hreattach⟩

theorem Grows.sessionIsReattch {s t : Session} (h : Grows s t) :
    t.sessionIsReattch = s.sessionIsReattch := by
  simp only [Session.sessionIsReattch, h.type, h.reattach]

theorem addReadEvent_grows (s : Session) (ev : EvMask) : Grows s (s.addReadEvent ev) := by
  unfold addReadEvent
  split
  · exact ⟨List.prefix_refl _, List.prefix_append _ _, rfl, rfl⟩
  · exact .refl s

theorem addWriteEvent_grows (s : Session) (ev : EvMask) : Grows s (s.addWriteEvent ev) := by
  unfold addWriteEvent
  split
  · exact ⟨List.prefix_refl _, List.prefix_append _ _, rfl, rfl⟩
  · exact .refl s

theorem sessionAddEvent_grows (s : Session) (ev : EvMask) : Grows s (s.sessionAddEvent ev) :=
  (addReadEvent_grows s ev).trans (addWriteEvent_grows _ ev)

theorem sessionDelEvent_grows (s : Session) (ev : EvMask) : Grows s (s.sessionDelEvent ev) := by
  unfold sessionDelEvent delWriteEvent delReadEvent
  split <;> split <;> exact .records [] (by simp) rfl rfl rfl

theorem opRun_grows (op : Op) (s : Session) : Grows s (op.run s) := by
  cases op with
  | note e => exact .records [e] rfl rfl rfl rfl
  | configure setting => exact .records [] (by simp [Op.run]) rfl rfl rfl
  | buffer bytes => exact .records [] (by simp [Op.run]) rfl rfl rfl
  | schedule t => exact .records [] (by simp [Op.run]) rfl rfl rfl
  | cancel t => exact .records [] (by simp [Op.run]) rfl rfl rfl
  | close => exact .records [] (by simp [Op.run, sessionClose]) rfl rfl rfl
  | addRead => exact sessionAddEvent_grows s _
  | addWrite => exact sessionAddEvent_grows s _
  | readdRead =>
    -- clearing the bits records nothing
    have hclear : Grows s { s with status := { s.status with
        reading := s.status.reading && !EvMask.evRead.read
        writing := s.status.writing && !EvMask.evRead.write } } :=
      .records [] (by simp) rfl rfl rfl
    exact hclear.trans (sessionAddEvent_grows _ .evRead)
  | startKeepalive =>
    rw [Op.run, sessionStartKeepalive]
    split <;> exact .records [] (by simp) rfl rfl rfl
  | push m =>
    have hpush : Grows s (s.queuePush m).1 := .records [] (List.append_nil _).symm rfl rfl rfl
    rcases Op.run_push s m with ⟨-, hrun⟩ | ⟨-, hrun⟩
    · rw [hrun]
      exact hpush.trans ((sessionAddEvent_grows _ .evWrite).trans (.records [_] rfl rfl rfl rfl))
    · rw [hrun]
      exact .records [] (List.append_nil _).symm rfl rfl rfl
  | drain =>
    have henter : Grows s { s.emit (.drain s.status s.evwrite.cb) with
        status := { s.status with exiting := true } } := .records [_] rfl rfl rfl rfl
    exact henter.trans ((sessionDelEvent_grows _ _).trans (sessionAddEvent_grows _ _))
  | finish =>
    rw [Op.run, sessionEnd_eq]
    exact .records _ rfl rfl rfl rfl
  | send buf msg io =>
    have hdirect : ∀ {n : Nat} {t : Session}, SentDirectly s buf n t → Grows s t := by
      intro n t hsent
      cases hsent with
      | nothing => exact .refl s
      | bytes => exact .records [_] rfl rfl rfl rfl
    have hrun := Op.run_send s buf msg io
    generalize (Op.send buf msg io).run s = u at hrun ⊢
    cases hrun with
    | refused => exact .refl s
    | whole _ n t hsent => exact (hdirect hsent).trans (.records [_] rfl rfl rfl rfl)
    | noMessage n t hsent =>
      exact (hdirect hsent).trans (.records [] (List.append_nil _).symm rfl rfl rfl)
    | queued _ n t hsent =>
      have hqueued : Grows t
          ((t.allocate.1.emit (.messageCreate msg)).queuePush (remainder buf msg n)).1 :=
        .records [_] rfl rfl rfl rfl
      exact (hdirect hsent).trans (hqueued.trans ((sessionAddEvent_grows _ .evWrite).trans
        (.records [_] rfl rfl rfl rfl)))

theorem Ops.grows {s t : Session} (h : Ops s t) : Grows s t :=
  h.invariant (.refl s) fun op u hu _ => hu.trans (opRun_grows op u)

theorem sessionStartReconnect_grows (s : Session) : Grows s s.sessionStartReconnect.1 := by
  by_cases h : s.status.exiting = true ∨ s.status.writing = true
  · rw [sessionStartReconnect_refused s h]
    exact .records [_] rfl rfl rfl rfl
  · have hfree : s.status.exiting = false ∧ s.status.writing = false := by simpa using h
    rw [sessionStartReconnect_eq s hfree.1 hfree.2]
    exact .records _ rfl rfl rfl rfl

theorem Outcome.grows {s t : Session} (h : Outcome s t) : Grows s t := by
  cases h with
  | settled h => exact h.grows
  | reconnect u h _ _ ht => exact h.grows.trans (ht ▸ sessionStartReconnect_grows u)

theorem Move.grows {s t : Session} (h : Move s t) : Grows s t := by
  cases h with
  | op op _ => exact opRun_grows op s
  | setEvent _ w e _ => cases w <;> exact .records [] (by simp [Session.setEvent]) rfl rfl rfl
  | setStatus => exact .records [] (by simp) rfl rfl rfl
  | answers => exact .records [] (by simp) rfl rfl rfl
  | delRead => exact sessionDelEvent_grows s _
  | transmit _ iovMax ios =>
    obtain ⟨_, _, es, -, h⟩ := settingTransmit_frame s iovMax ios
    rw [h]
    exact .records es rfl rfl rfl rfl
  | startReconnect => exact sessionStartReconnect_grows s
  | reconnectFd _ env =>
    unfold Session.reconnectFd
    split
    · exact .records [] (by simp) rfl rfl rfl
    · exact .records [_] rfl rfl rfl rfl
    · exact .refl s
  | awaitConnection => exact ⟨List.prefix_append _ _, List.prefix_append _ _, rfl, rfl⟩
  | takeQueue => exact .records [] (by simp [Session.takeQueue, sessionSendqueueTake]) rfl rfl rfl
  | merge _ q =>
    obtain ⟨q', memory, -, -, h⟩ := sessionSendqueueMerge_frame s q
    rw [h]
    exact .records [] (by simp) rfl rfl rfl

theorem Moves.grows {s t : Session} (h : Moves s t) : Grows s t :=
  h.invariant (.refl s) fun _ _ hu hmove => hu.trans hmove.grows

theorem step_grows {iovMax : Nat} {s t : Session} {i : Input} (h : step iovMax s i = some t) :
    Grows s t :=
  (step_moves h).grows

/-! ## Callbacks -/

/-- The event of a session that a callback belongs to. -/
def callbackOwner : Handler → Option Which
  | .onRead => some .evread
  | .onWrite | .onReconnect | .reconnected => some .evwrite
  | .onKeepalive => some .evkeepalive
  | .onSchedule => none

/-- Each event has one of its own callbacks, if it has any. -/
def HasCallbacks (s : Session) : Prop :=
  ∀ w cb, (s.event w).cb = some cb → callbackOwner cb = some w

/-- What changes of the callbacks keeps them with their events. -/
def KeepsCallbacks (s t : Session) : Prop :=
  ∀ w cb, (t.event w).cb = some cb → (s.event w).cb = some cb ∨ callbackOwner cb = some w

theorem KeepsCallbacks.of_same {s t : Session} (h : ∀ w, (t.event w).cb = (s.event w).cb) :
    KeepsCallbacks s t := fun w _ hcb => .inl (h w ▸ hcb)

theorem KeepsCallbacks.trans {s t u : Session} (h₁ : KeepsCallbacks s t)
    (h₂ : KeepsCallbacks t u) : KeepsCallbacks s u := fun w cb hcb =>
  (h₂ w cb hcb).elim (h₁ w cb) .inr

theorem addReadEvent_callbacks (s : Session) (ev : EvMask) :
    KeepsCallbacks s (s.addReadEvent ev) := by
  intro w cb hcb
  unfold addReadEvent at hcb
  split at hcb
  · cases w with
    | evread =>
      have hnew : Handler.onRead = cb := by simpa [event] using hcb
      exact .inr (hnew ▸ rfl)
    | evwrite => exact .inl hcb
    | evkeepalive => exact .inl hcb
  · exact .inl hcb

theorem addWriteEvent_callbacks (s : Session) (ev : EvMask) :
    KeepsCallbacks s (s.addWriteEvent ev) := by
  intro w cb hcb
  unfold addWriteEvent at hcb
  split at hcb
  · cases w with
    | evwrite =>
      have hnew : Handler.onWrite = cb := by simpa [event] using hcb
      exact .inr (hnew ▸ rfl)
    | evread => exact .inl hcb
    | evkeepalive => exact .inl hcb
  · exact .inl hcb

theorem sessionAddEvent_callbacks (s : Session) (ev : EvMask) :
    KeepsCallbacks s (s.sessionAddEvent ev) :=
  (addReadEvent_callbacks s ev).trans (addWriteEvent_callbacks _ ev)

theorem sessionDelEvent_callbacks (s : Session) (ev : EvMask) :
    KeepsCallbacks s (s.sessionDelEvent ev) := by
  refine .of_same fun w => ?_
  unfold sessionDelEvent delWriteEvent delReadEvent
  cases w <;> split <;> split <;> rfl

theorem stopEvents_callbacks (s : Session) : KeepsCallbacks s s.stopEvents := by
  refine .of_same fun w => ?_
  cases w <;> simp only [stopEvents, event] <;> split <;> rfl

theorem opRun_callbacks (op : Op) (s : Session) : KeepsCallbacks s (op.run s) := by
  cases op with
  | addRead => exact sessionAddEvent_callbacks s _
  | addWrite => exact sessionAddEvent_callbacks s _
  | readdRead =>
    have hclear : KeepsCallbacks s { s with status := { s.status with
        reading := s.status.reading && !EvMask.evRead.read
        writing := s.status.writing && !EvMask.evRead.write } } := .of_same fun _ => rfl
    exact hclear.trans (sessionAddEvent_callbacks _ .evRead)
  | startKeepalive =>
    intro w cb hcb
    rw [Op.run, sessionStartKeepalive] at hcb
    split at hcb
    · cases w with
      | evkeepalive =>
        -- the callback installed is the one for this event
        have hnew : Handler.onKeepalive = cb := by simpa [event] using hcb
        exact .inr (hnew ▸ rfl)
      | evread => exact .inl hcb
      | evwrite => exact .inl hcb
    · exact .inl hcb
  | push m =>
    have hpush : KeepsCallbacks s (s.queuePush m).1 := .of_same fun _ => rfl
    rcases Op.run_push s m with ⟨-, hrun⟩ | ⟨-, hrun⟩
    · rw [hrun]
      exact hpush.trans (sessionAddEvent_callbacks _ .evWrite)
    · rw [hrun]
      exact .of_same fun _ => rfl
  | drain =>
    have henter : KeepsCallbacks s { s.emit (.drain s.status s.evwrite.cb) with
        status := { s.status with exiting := true } } := .of_same fun _ => rfl
    exact henter.trans ((sessionDelEvent_callbacks _ _).trans (sessionAddEvent_callbacks _ _))
  | finish =>
    rw [Op.run, sessionEnd_eq]
    exact stopEvents_callbacks s
  | send buf msg io =>
    have hdirect : ∀ {n : Nat} {t : Session}, SentDirectly s buf n t → KeepsCallbacks s t := by
      intro n t hsent
      cases hsent <;> exact .of_same fun _ => rfl
    have hrun := Op.run_send s buf msg io
    generalize (Op.send buf msg io).run s = u at hrun ⊢
    cases hrun with
    | refused => exact .of_same fun _ => rfl
    | whole _ n t hsent => exact (hdirect hsent).trans (.of_same fun _ => rfl)
    | noMessage n t hsent => exact (hdirect hsent).trans (.of_same fun _ => rfl)
    | queued _ n t hsent =>
      have hqueued : KeepsCallbacks t
          ((t.allocate.1.emit (.messageCreate msg)).queuePush (remainder buf msg n)).1 :=
        .of_same fun _ => rfl
      exact (hdirect hsent).trans (hqueued.trans (sessionAddEvent_callbacks _ .evWrite))
  | _ => exact .of_same fun _ => rfl

theorem Move.callbacks {s t : Session} (h : Move s t) : KeepsCallbacks s t := by
  cases h with
  | op op _ => exact opRun_callbacks op s
  | setEvent _ w e hcb =>
    refine .of_same fun w' => ?_
    cases w <;> cases w' <;> first | exact hcb | rfl
  | setStatus => exact .of_same fun _ => rfl
  | answers => exact .of_same fun _ => rfl
  | delRead => exact sessionDelEvent_callbacks s _
  | transmit _ iovMax ios =>
    obtain ⟨_, _, _, -, h⟩ := settingTransmit_frame s iovMax ios
    rw [h]
    exact .of_same fun _ => rfl
  | startReconnect =>
    -- a refused reconnect changes no event
    by_cases h : s.status.exiting = true ∨ s.status.writing = true
    · rw [sessionStartReconnect_refused s h]
      exact .of_same fun _ => rfl
    · have hfree : s.status.exiting = false ∧ s.status.writing = false := by simpa using h
      rw [sessionStartReconnect_eq s hfree.1 hfree.2]
      intro w cb hcb
      cases w with
      | evwrite =>
        have hnew : Handler.onReconnect = cb := by simpa [event, reconnectEvent] using hcb
        exact .inr (hnew ▸ rfl)
      | evread => exact stopEvents_callbacks s .evread cb hcb
      | evkeepalive => exact stopEvents_callbacks s .evkeepalive cb hcb
  | reconnectFd _ env =>
    unfold Session.reconnectFd
    split <;> exact .of_same fun _ => rfl
  | awaitConnection =>
    intro w cb hcb
    cases w with
    | evwrite =>
      have hnew : Handler.reconnected = cb := by simpa [event, Session.awaitConnection] using hcb
      exact .inr (hnew ▸ rfl)
    | evread => exact .inl hcb
    | evkeepalive => exact .inl hcb
  | takeQueue => exact .of_same fun _ => rfl
  | merge _ q =>
    obtain ⟨q', memory, -, -, h⟩ := sessionSendqueueMerge_frame s q
    rw [h]
    exact .of_same fun _ => rfl

theorem HasCallbacks.owner {s : Session} (hs : HasCallbacks s) {w w' : Which} {cb : Handler}
    (hcb : (s.event w).cb = some cb) (howner : callbackOwner cb = some w') : w = w' :=
  Option.some.inj ((hs w cb hcb).symm.trans howner)

/-- A delivery of the read event runs `channel_on_read`. -/
theorem deliver_read {iovMax : Nat} {s t : Session} {env : Env} (hs : HasCallbacks s)
    (hinstalled : s.evread.cb ≠ none) (h : step iovMax s (.deliver .evread env) = some t) :
    t = (s.setEvent .evread s.evread.processActive).channelOnRead s.evread.results env := by
  cases step_cases h with
  | uninstalled _ _ _ hcb => exact absurd hcb hinstalled
  | onRead => rfl
  | onWrite _ _ _ hcb => cases hs.owner hcb rfl
  | onKeepalive _ _ _ hcb => cases hs.owner hcb rfl
  | onReconnect _ _ _ hcb => cases hs.owner hcb rfl
  | reconnected _ _ _ hcb => cases hs.owner hcb rfl
  | onSchedule _ _ _ hcb => cases hs .evread .onSchedule hcb
  | ops _ _ hi => exact absurd rfl (hi .evread env)

theorem Moves.hasCallbacks {s t : Session} (h : Moves s t) (hs : HasCallbacks s) :
    HasCallbacks t :=
  h.invariant hs fun _ _ hu hmove w cb hcb =>
    (hmove.callbacks w cb hcb).elim (hu w cb) id

theorem step_hasCallbacks {iovMax : Nat} {s t : Session} {i : Input}
    (h : step iovMax s i = some t) (hs : HasCallbacks s) : HasCallbacks t :=
  (step_moves h).hasCallbacks hs

theorem started_hasCallbacks (reattach : Bool) (type : SessionType) (fd : Int) (env : Env) :
    HasCallbacks (started reattach type fd env) := by
  refine (started_ops reattach type fd env).moves.hasCallbacks fun w cb hcb => ?_
  cases w <;> cases hcb

end Session

end Evlite
