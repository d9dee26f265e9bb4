import Evlite.Lib.TransitionSystem
import Evlite.Session.Stream

/-!
# What a Session Writes on its Connections

Runs of a TCP session from `session_start` on. On its first connection nothing is lost,
duplicated or reordered, unless memory runs out: `_send_buffer` has written the beginning of
a payload by then, and forgets the rest. When the session connects anew, the queue is sent
again from its first message; a message that stands for the rest of a payload only continues
that payload on the wrong connection.

## Main results

- `single_connection_stream`: as long as a session has only had its first connection, the
  bytes on the wire followed by the unsent bytes of the queue are the accepted payloads,
  in order, in every run with memory.
- `connections_begin_payloads`: what is written on every connection is the beginning of a
  concatenation of whole payloads, in every run with memory in which no remainder of a
  payload is in the queue when a reconnect succeeds.
-/

namespace Evlite

open Lib.ChunkQueue

namespace Session

/-! ## Runs -/

/-- Nothing but `evwrite` waits for a connection, and it does so only while there is none. -/
def AwaitsRightly (s : Session) : Prop :=
  ∀ w, (s.event w).cb = some .reconnected →
    w = .evwrite ∧ (s.freed = false → s.established = false)

theorem AwaitsRightly.carried {s t : Session} (hs : AwaitsRightly s) (h : Carried s t) :
    AwaitsRightly t := by
  intro w hw
  obtain ⟨hevent, hest⟩ := hs w (h.waits.awaits w hw)
  exact ⟨hevent, fun halive => h.established.trans (hest (h.alive halive))⟩

theorem AwaitsRightly.step {s t : Session} {i : Input} (hs : AwaitsRightly s)
    (h : StreamStep s i t) : AwaitsRightly t := by
  cases h with
  | carried h => exact hs.carried h
  | connected u h hconn =>
    intro w hw
    refine ⟨?_, fun _ => hconn.established⟩
    by_cases hwrite : w = .evwrite
    · exact hwrite
    · rw [hconn.others w hwrite] at hw
      exact (hs.carried h w hw).1
  | abandoned _ u h hstart hfreed =>
    intro w hw
    have hu := (takeQueue_waits u).awaits w (hstart.waits.awaits w hw)
    exact ⟨(hs.carried h w hu).1, fun halive => by simp [hfreed] at halive⟩
  | resumed _ u v h _ hstart halive hidle ht =>
    intro w hw
    have hmerge : WaitsOnly v (v.sessionSendqueueMerge u.sendqueue) := by
      obtain ⟨q', memory, -, -, hmerged⟩ := sessionSendqueueMerge_frame v u.sendqueue
      rw [hmerged]
      exact .same rfl
    have hwaits := hmerge.trans (resume_carried v halive u.sendqueue).waits
    rw [ht] at hw
    have hu := (takeQueue_waits u).awaits w (hstart.waits.awaits w (hwaits.awaits w hw))
    obtain rfl : w = .evwrite := (hs.carried h w hu).1
    exact absurd hw (resume_cb v u.sendqueue hidle)
  | answered memory poller ht =>
    rw [ht]
    intro w hw
    exact hs w (by cases w <;> exact hw)

/-- On the first connection, the wire and the unsent bytes make up the accepted payloads. -/
structure OneConnection (s : Session) : Prop where
  type : s.type ≠ .shared
  awaits : AwaitsRightly s
  stream : s.freed = false → s.wires.closed = [] → s.established = true ∧ s.QueueAligned ∧
    s.wires.wire ++ s.unsent = s.wires.accepted.flatten

theorem OneConnection.carries {s t : Session} (hs : OneConnection s) (hmemory : s.HasMemory)
    (h : Carries s t) : OneConnection t where
  type := h.type ▸ hs.type
  awaits := hs.awaits.carried (.single h)
  stream halive hone := by
    obtain ⟨hest, halign, heq⟩ := hs.stream (h.alive halive) (h.closed ▸ hone)
    obtain ⟨new, haccepted, -, halign', -, hstream⟩ := h.stream hmemory halign
    refine ⟨h.established.trans hest, halign', ?_⟩
    rw [hstream halive, haccepted, heq, List.flatten_append]

theorem OneConnection.carried {s t : Session} (hs : OneConnection s) (hmemory : s.HasMemory)
    (h : Carried s t) : OneConnection t := by
  induction h with
  | refl => exact hs
  | tail hpre hstep ih => exact ih.carries (hmemory.of_suffix (Carried.memory hpre)) hstep

theorem OneConnection.step {s t : Session} {i : Input} (hs : OneConnection s)
    (halive : s.freed = false) (hmemory : s.HasMemory) (h : StreamStep s i t) : OneConnection t := by
  refine ⟨h.type ▸ hs.type, hs.awaits.step h, fun ht hone => ?_⟩
  cases h with
  | carried h => exact (hs.carried hmemory h).stream ht hone
  | connected u h hconn =>
    -- a connection was closed
    rw [hconn.wires] at hone
    simp at hone
  | abandoned _ u h hstart hfreed => simp [hfreed] at ht
  | resumed hi u v h _ hstart hv _ hresume =>
    -- a reconnect succeeds only after the first connection was closed
    obtain ⟨w, env, -, hcb, -, -⟩ := hi
    have hest := (hs.awaits w hcb).2 halive
    have hclosed : t.wires.closed = s.wires.closed := by
      have hmerge : (v.sessionSendqueueMerge u.sendqueue).wires = v.wires := by
        obtain ⟨q', memory, -, -, hmerged⟩ := sessionSendqueueMerge_frame v u.sendqueue
        rw [hmerged]
        rfl
      have htake : u.takeQueue.wires = u.wires := rfl
      rw [hresume, (resume_carried v hv _).closed, hmerge, hstart.closed, htake, h.closed]
    have hfirst := hs.stream halive (hclosed ▸ hone)
    simp [hest] at hfirst
  | answered memory poller hanswers =>
    subst hanswers
    exact hs.stream ht hone

theorem awaitsRightly_started {reattach : Bool} {type : SessionType} {fd : Int} {env : Env} :
    AwaitsRightly (started reattach type fd env) := by
  refine AwaitsRightly.carried ?_ (started_ops reattach type fd env).carried
  intro w hw
  cases w <;> cases hw

theorem oneConnection_started {reattach : Bool} {type : SessionType} {fd : Int} {env : Env}
    (htype : type ≠ .shared) (hmemory : ∀ b ∈ env.memory, b = true) :
    OneConnection (started reattach type fd env) := by
  have hnew : { created reattach env with fd := fd, type := type }.HasMemory := hmemory
  refine OneConnection.carried ⟨htype, ?_, ?_⟩ hnew (started_ops reattach type fd env).carried
  · intro w hw
    cases w <;> cases hw
  · intro _ _
    exact ⟨rfl, rfl, rfl⟩

/-- A session on its first connection, with memory whenever it asks for some: the bytes on the
wire, followed by the unsent bytes of the queue, are the payloads accepted so far, in the
order of their acceptance, and the offset of an empty queue is zero. -/
theorem single_connection_stream (iovMax : Nat) (reattach : Bool) (type : SessionType) (fd : Int)
    (env : Env) (is : List Input) (t : Session) (htype : type ≠ .shared)
    (hmemory : ∀ b ∈ env.memory, b = true)
    (hrun : Lib.GuardedRun (step iovMax) (fun s _ => s.HasMemory) (started reattach type fd env) is t)
    (halive : t.freed = false) (hone : t.wires.closed = []) :
    t.wires.wire ++ t.unsent = t.wires.accepted.flatten ∧
      (t.sendqueue = [] → t.msgoffset = 0) := by
  have hinv : OneConnection t := hrun.invariant (I := OneConnection)
    (oneConnection_started htype hmemory) fun u i v hu hasks hstep =>
      hu.step (step_alive hstep) hasks (step_stream hu.type hstep)
  obtain ⟨-, halign, hstream⟩ := hinv.stream halive hone
  refine ⟨hstream, fun hempty => ?_⟩
  rw [QueueAligned, hempty] at halign
  exact halign

/-- A payload of three bytes goes out in two pieces, and one byte stays behind. -/
def shortWrites : List Input :=
  [.call (.send { buf := [1, 2, 3], io := .wrote 1 }), .report .evwrite .evWrite,
    .deliver .evwrite { writev := [.wrote 1] }]

theorem single_connection_stream_shortWrites :
    ∃ t, Lib.guardedExec (step 1024) (fun s _ => s.HasMemory) (started false .accept 5 {})
        shortWrites = some t ∧
      t.wires.wire = [1, 2] ∧ t.unsent = [3] ∧
      t.wires.wire ++ t.unsent = t.wires.accepted.flatten ∧
      (t.sendqueue = [] → t.msgoffset = 0) :=
  ⟨_, rfl, rfl, rfl, single_connection_stream 1024 false .accept 5 {} shortWrites _ (by decide)
    (by decide) (Lib.GuardedRun.of_exec rfl) rfl rfl⟩

/-- Three bytes are sent, of which the kernel takes the first. -/
def sendShort (memory : List Bool) : List Input :=
  [.answers memory [], .call (.send { buf := [1, 2, 3], io := .wrote 1 })]

/-- Without memory for the message the payload counts as refused, though its first byte is on
the wire; without memory for the queue it counts as accepted, and its rest is gone. -/
theorem single_connection_stream_noMemory_fails :
    (∃ t, Lib.Run (step 1024) (started false .accept 5 {}) (sendShort [false]) t ∧
      t.freed = false ∧ t.wires.closed = [] ∧
      t.wires.wire = [1] ∧ t.unsent = [] ∧ t.wires.accepted.flatten = []) ∧
    ∃ t, Lib.Run (step 1024) (started false .accept 5 {}) (sendShort [true, false]) t ∧
      t.freed = false ∧ t.wires.closed = [] ∧
      t.wires.wire = [1] ∧ t.unsent = [] ∧ t.wires.accepted.flatten = [1, 2, 3] :=
  ⟨⟨_, Lib.run_iff_exec.mpr rfl, rfl, rfl, rfl, rfl, rfl⟩,
    ⟨_, Lib.run_iff_exec.mpr rfl, rfl, rfl, rfl, rfl, rfl⟩⟩

/-! ## Connections after a reconnect -/

/-- The bytes `w` are the beginning of a concatenation of whole payloads of `ps`. -/
def BeginsPayloads (ps : List (List UInt8)) (w : List UInt8) : Prop :=
  ∃ qs : List (List UInt8), (∀ q ∈ qs, q ∈ ps) ∧ w <+: qs.flatten

theorem BeginsPayloads.append {ps : List (List UInt8)} {w : List UInt8}
    (h : BeginsPayloads ps w) (new : List (List UInt8)) : BeginsPayloads (ps ++ new) w := by
  obtain ⟨qs, hqs, hw⟩ := h
  exact ⟨qs, fun q hq => List.mem_append_left _ (hqs q hq), hw⟩

/-- Every connection carries the beginning of whole payloads. The last fields are what it
takes to keep this: the current connection together with the unsent bytes makes up whole
payloads, and before the connection stands nothing is on the wire. -/
structure WholePayloads (s : Session) : Prop where
  connections : ∀ w ∈ s.connections, BeginsPayloads s.wires.accepted w
  queue : ∀ m ∈ s.sendqueue, m.payload ∈ s.wires.accepted
  aligned : s.QueueAligned
  settled : s.freed = false → s.established = true →
    ∃ qs : List (List UInt8), (∀ q ∈ qs, q ∈ s.wires.accepted) ∧
      s.wires.wire ++ s.unsent = qs.flatten
  fresh : s.freed = false → s.established = false → s.wires.wire = []

theorem WholePayloads.carries {s t : Session} (hs : WholePayloads s) (hmemory : s.HasMemory)
    (h : Carries s t) : WholePayloads t := by
  obtain ⟨new, haccepted, hqueue, halign, hprefix, hstream⟩ := h.stream hmemory hs.aligned
  have hold : ∀ p ∈ s.wires.accepted, p ∈ t.wires.accepted := fun p hp => by
    rw [haccepted]
    exact List.mem_append_left _ hp
  have hnew : ∀ p ∈ new, p ∈ t.wires.accepted := fun p hp => by
    rw [haccepted]
    exact List.mem_append_right _ hp
  -- the payloads of the current connection, with those accepted just now
  have hsettled : s.freed = false → s.established = true →
      ∃ qs : List (List UInt8), (∀ q ∈ qs, q ∈ t.wires.accepted) ∧
        s.wires.wire ++ s.unsent ++ new.flatten = qs.flatten := by
    intro halive hest
    obtain ⟨qs, hqs, heq⟩ := hs.settled halive hest
    refine ⟨qs ++ new, fun q hq => ?_, by rw [heq, List.flatten_append]⟩
    rcases List.mem_append.mp hq with hq | hq
    · exact hold q (hqs q hq)
    · exact hnew q hq
  refine ⟨?_, ?_, halign, ?_, ?_⟩
  · intro w hw
    rcases List.mem_append.mp hw with hw | hw
    · rw [h.closed] at hw
      rw [haccepted]
      exact (hs.connections w (List.mem_append_left _ hw)).append new
    · rw [List.mem_singleton.mp hw]
      have hwire : BeginsPayloads t.wires.accepted s.wires.wire := by
        rw [haccepted]
        exact (hs.connections _ (List.mem_append_right _ (List.mem_singleton.mpr rfl))).append new
      cases hfreed : s.freed with
      | true => rwa [(h.gone hfreed).1] at hwire ⊢
      | false =>
        cases hest : s.established with
        | false => rwa [h.idle hest]
        | true =>
          obtain ⟨qs, hqs, heq⟩ := hsettled hfreed hest
          exact ⟨qs, hqs, heq ▸ hprefix⟩
  · intro m hm
    exact (hqueue m hm).elim (fun hm => hold _ (hs.queue m hm)) (hnew _)
  · intro halive hest
    obtain ⟨qs, hqs, heq⟩ := hsettled (h.alive halive) (h.established ▸ hest)
    exact ⟨qs, hqs, (hstream halive).trans heq⟩
  · intro halive hest
    have hest' : s.established = false := h.established ▸ hest
    rw [h.idle hest']
    exact hs.fresh (h.alive halive) hest'

theorem WholePayloads.carried {s t : Session} (hs : WholePayloads s) (hmemory : s.HasMemory)
    (h : Carried s t) : WholePayloads t := by
  induction h with
  | refl => exact hs
  | tail hpre hstep ih => exact ih.carries (hmemory.of_suffix (Carried.memory hpre)) hstep

theorem WholePayloads.connects {s t : Session} (hs : WholePayloads s) (h : Connects s t) :
    WholePayloads t where
  connections w hw := by
    rw [Session.connections, h.wires] at hw
    rw [h.wires]
    rcases List.mem_append.mp hw with hw | hw
    · exact hs.connections w hw
    · rw [List.mem_singleton.mp hw]
      exact ⟨[], by simp, List.nil_prefix⟩
  queue m hm := by
    rw [h.wires]
    exact hs.queue m (h.queue ▸ hm)
  aligned := by
    rw [QueueAligned, h.queue, h.offset]
    exact hs.aligned
  settled _ hest := by simp [h.established] at hest
  fresh _ _ := by rw [h.wires]

/-- On the new connection nothing is written yet, and nothing is queued. -/
theorem WholePayloads.takeQueue {s : Session} (hs : WholePayloads s)
    (hfresh : s.wires.wire = []) : WholePayloads s.takeQueue where
  connections := hs.connections
  queue m hm := by cases hm
  aligned := rfl
  settled _ _ := by
    refine ⟨[], by simp, ?_⟩
    have hunsent : s.takeQueue.unsent = [] := rfl
    rw [hunsent, List.append_nil]
    exact hfresh
  fresh _ hest := by cases hest

/-- Queueing whole payloads again. -/
theorem WholePayloads.merge {s : Session} (hs : WholePayloads s) (hmemory : s.HasMemory)
    (hest : s.established = true) {q : List Message} (hwhole : ∀ m ∈ q, m.sent = [])
    (haccepted : ∀ m ∈ q, m.payload ∈ s.wires.accepted) :
    WholePayloads (s.sessionSendqueueMerge q) := by
  obtain ⟨memory, -, hmerged⟩ := sessionSendqueueMerge_of_memory hmemory q
  rw [hmerged]
  refine ⟨hs.connections, fun m hm => ?_, hs.aligned.append q, fun halive _ => ?_, fun _ hidle => ?_⟩
  · rcases List.mem_append.mp hm with hm | hm
    · exact hs.queue m hm
    · exact haccepted m hm
  · obtain ⟨qs, hqs, heq⟩ := hs.settled halive hest
    refine ⟨qs ++ q.map Message.payload, fun p hp => ?_, ?_⟩
    · rcases List.mem_append.mp hp with hp | hp
      · exact hqs p hp
      · obtain ⟨m, hm, rfl⟩ := List.mem_map.mp hp
        exact haccepted m hm
    · -- the queued messages stand for whole payloads, nothing of which was sent
      have hbuffers : q.map Message.buffer = q.map Message.payload := by
        refine List.map_congr_left fun m hm => ?_
        rw [Message.payload, hwhole m hm, List.nil_append]
      have hunsent : pending Message.buffer s.msgoffset (s.sendqueue ++ q) =
          s.unsent ++ (q.map Message.payload).flatten := by
        rw [← hbuffers]
        exact pending_append hs.aligned q
      rw [List.flatten_append, ← heq, List.append_assoc]
      exact congrArg (s.wires.wire ++ ·) hunsent
  · have : s.established = false := hidle
    simp [hest] at this

/-- When a reconnect succeeds, every message in the queue stands for its whole payload. -/
def ResumesWhole (s : Session) : Input → Prop
  | .deliver w env =>
    (s.event w).cb = some .reconnected → (s.event w).results.write = true →
      env.connected = true → ∀ m ∈ s.sendqueue, m.sent = []
  | _ => True

instance (s : Session) (i : Input) : Decidable (ResumesWhole s i) :=
  match i with
  | .deliver w env => inferInstanceAs (Decidable ((s.event w).cb = some .reconnected →
      (s.event w).results.write = true → env.connected = true → ∀ m ∈ s.sendqueue, m.sent = []))
  | .report _ _ | .expire _ | .datagram _ _ | .schedule _ _ | .call _ | .shutdown _ | .answers _ _ =>
    inferInstanceAs (Decidable True)

theorem WholePayloads.accepted_mono {s t : Session} (hs : WholePayloads s) (hmemory : s.HasMemory)
    (h : Carried s t) : ∀ p ∈ s.wires.accepted, p ∈ t.wires.accepted := by
  induction h with
  | refl => exact fun _ => id
  | tail hpre hstep ih =>
    obtain ⟨new, haccepted, -⟩ :=
      hstep.stream (hmemory.of_suffix (Carried.memory hpre)) (hs.carried hmemory hpre).aligned
    intro p hp
    rw [haccepted]
    exact List.mem_append_left _ (ih p hp)

theorem WholePayloads.step {s t : Session} {i : Input} (hs : WholePayloads s)
    (hawaits : AwaitsRightly s) (halive : s.freed = false) (hmemory : s.HasMemory)
    (hwhole : ResumesWhole s i) (h : StreamStep s i t) : WholePayloads t := by
  -- a reconnect that succeeds meets a session without a connection
  have hfresh : Resumes s i → ∀ u, Carried s u → u.wires.wire = [] := by
    intro hi u hu
    obtain ⟨w, env, -, hcb, -, -⟩ := hi
    have hest := (hawaits w hcb).2 halive
    rw [hu.idle hest]
    exact hs.fresh halive hest
  cases h with
  | carried h => exact hs.carried hmemory h
  | connected u h hconn => exact (hs.carried hmemory h).connects hconn
  | abandoned hi u h hstart hfreed =>
    have htaken := (hs.carried hmemory h).takeQueue (hfresh hi u h)
    have hu : u.HasMemory := hmemory.of_suffix (Carried.memory h)
    exact htaken.carried hu hstart
  | resumed hi u v h hqueue hstart hv _ ht =>
    have htaken := (hs.carried hmemory h).takeQueue (hfresh hi u h)
    have hu : u.takeQueue.HasMemory := HasMemory.of_suffix (t := u) hmemory (Carried.memory h)
    have hstarted := htaken.carried hu hstart
    have hv' : v.HasMemory := hu.of_suffix (Carried.memory hstart)
    have hmerged : (v.sessionSendqueueMerge u.sendqueue).HasMemory := by
      obtain ⟨memory, hsuffix, hmerged⟩ := sessionSendqueueMerge_of_memory hv' u.sendqueue
      rw [hmerged]
      exact hv'.of_suffix hsuffix
    rw [ht]
    refine (hstarted.merge hv' hstart.established ?_ ?_).carried hmerged (resume_carried v hv _)
    · obtain ⟨w, env, rfl, hcb, hwrite, hconn⟩ := hi
      rw [hqueue]
      exact hwhole hcb hwrite hconn
    · intro m hm
      exact htaken.accepted_mono hu hstart _ ((hs.carried hmemory h).queue m hm)
  | answered memory poller ht =>
    subst ht
    exact ⟨hs.connections, hs.queue, hs.aligned, hs.settled, hs.fresh⟩

theorem wholePayloads_started {reattach : Bool} {type : SessionType} {fd : Int} {env : Env}
    (hmemory : ∀ b ∈ env.memory, b = true) :
    WholePayloads (started reattach type fd env) := by
  have hnew : WholePayloads { created reattach env with fd := fd, type := type } := by
    refine ⟨fun w hw => ?_, fun m hm => (by cases hm), rfl, fun _ _ => ?_, fun _ _ => rfl⟩
    · rw [List.mem_singleton.mp hw]
      exact ⟨[], by simp, List.nil_prefix⟩
    · exact ⟨[], by simp, rfl⟩
  exact hnew.carried hmemory (started_ops reattach type fd env).carried

/-- A session that connects anew: as long as there is memory whenever it asks for some, and no
reconnect succeeds while the rest of a partly written payload is in the queue, what is written
on each connection is the beginning of a concatenation of whole payloads. -/
theorem connections_begin_payloads (iovMax : Nat) (reattach : Bool) (type : SessionType) (fd : Int)
    (env : Env) (is : List Input) (t : Session) (htype : type ≠ .shared)
    (hmemory : ∀ b ∈ env.memory, b = true)
    (hrun : Lib.GuardedRun (step iovMax) (fun s i => s.HasMemory ∧ ResumesWhole s i)
      (started reattach type fd env) is t) :
    ∀ w ∈ t.connections, BeginsPayloads t.wires.accepted w := by
  have hinv : (t.type ≠ .shared ∧ AwaitsRightly t) ∧ WholePayloads t :=
    hrun.invariant (I := fun u => (u.type ≠ .shared ∧ AwaitsRightly u) ∧ WholePayloads u)
      ⟨⟨(oneConnection_started htype hmemory).type, awaitsRightly_started⟩,
        wholePayloads_started hmemory⟩
      fun u i v hu hguard hstep =>
        have hstream := step_stream hu.1.1 hstep
        ⟨⟨hstream.type ▸ hu.1.1, hu.1.2.step hstream⟩,
          hu.2.step hu.1.2 (step_alive hstep) hguard.1 hguard.2 hstream⟩
  exact hinv.2.connections

/-- A write error breaks the connection, the next attempt succeeds, and the queue is sent
anew. -/
def writeErrorThenReconnect (sent : IoResult) (writev : List IoResult) : List Input :=
  [.call (.send { buf := [1, 2, 3], io := sent }),
    .report .evwrite .evWrite, .deliver .evwrite { writev := writev },
    .expire .evwrite, .deliver .evwrite { newFd := 7 },
    .report .evwrite .evWrite, .deliver .evwrite {},
    .report .evwrite .evWrite, .deliver .evwrite { writev := [.wrote 3] }]

/-- A payload of which one byte was written from the queue is written anew from its start. -/
theorem connections_begin_payloads_queued :
    ∃ t, Lib.guardedExec (step 1024) (fun s i => s.HasMemory ∧ ResumesWhole s i)
        (started false .connect 5 {}) (writeErrorThenReconnect .again [.wrote 1, .failure]) = some t ∧
      t.connections = [[1], [1, 2, 3]] ∧
      ∀ w ∈ t.connections, BeginsPayloads t.wires.accepted w :=
  ⟨_, rfl, rfl, connections_begin_payloads 1024 false .connect 5 {}
    (writeErrorThenReconnect .again [.wrote 1, .failure]) _ (by decide) (by decide)
    (Lib.GuardedRun.of_exec rfl)⟩

/-- A payload of which one byte was written directly is continued on the new connection
from its second byte on. -/
theorem connections_begin_payloads_direct_fails :
    ∃ t, Lib.Run (step 1024) (started false .connect 5 {})
        (writeErrorThenReconnect (.wrote 1) [.failure]) t ∧
      t.connections = [[1], [2, 3]] ∧ t.wires.accepted = [[1, 2, 3]] ∧
      ¬ ∀ w ∈ t.connections, BeginsPayloads t.wires.accepted w := by
  refine ⟨_, Lib.run_iff_exec.mpr rfl, rfl, rfl, fun hall => ?_⟩
  have haccepted : ∀ qs : List (List UInt8), (∀ q ∈ qs, q ∈ [[1, 2, 3]]) →
      ¬ [2, 3] <+: qs.flatten := by
    intro qs hqs
    cases qs with
    | nil => simp
    | cons q qs =>
      obtain rfl : q = [1, 2, 3] := by simpa using hqs q List.mem_cons_self
      simp
  obtain ⟨qs, hqs, hprefix⟩ := hall [2, 3] (by decide)
  exact haccepted qs hqs hprefix

end Session

end Evlite
