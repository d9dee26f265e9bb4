import Evlite.Lib.History
import Evlite.Lib.TransitionSystem
import Evlite.Session.Ops

/-!
# The Descriptor of an Associated Session

An associated session has its descriptor from the application, and when it is to be connected
again the application's `reattach` is called for a new one. By the contract of `reattacher_t`
this call receives the descriptor that was associated last, and the layer does not close it
before. `Association` follows this descriptor through the trace of a session.

`session_start_reconnect` sets `fd` to `-1`, so that `_stop` does not close the descriptor, and
`channel_on_reconnect` hands on what is in `fd` then.

## Main results

- `Conduct.undisturbed`: what a handler does to the descriptor and the trace.
- `step_association`: from a session that has its descriptor, a step that starts no reconnect
  leads to such a session.
- `reattach_contract_iff`: a run keeps the contract exactly if no reconnect is started in it
  while there is a descriptor.
-/

namespace Evlite

open Lib

/-- The descriptor most recently associated with a session, whether `reattach` was called with
it, and whether the layer closed it. -/
structure Association where
  fd : Int
  handed : Bool := false
  closed : Bool := false
deriving DecidableEq, Repr

namespace Association

/-- What an effect means for the descriptor. -/
def record (a : Association) : Effect → Association
  | .connect fd => { fd := fd }
  | .reattach fd => { a with handed := a.handed || fd == a.fd }
  | .close fd => { a with closed := a.closed || fd == a.fd }
  | _ => a

/-- A call of `reattach` receives the descriptor, which is still open. -/
def Honoured (a : Association) (e : Effect) : Prop :=
  ∀ fd, e = .reattach fd → fd = a.fd ∧ a.closed = false

/-- No reconnect is started while there is a descriptor. -/
def Kept (a : Association) (e : Effect) : Prop :=
  ∀ found, e = .startReconnect found →
    found.exiting = true ∨ found.writing = true ∨ a.fd = -1

end Association

/-- An effect that has to do with no descriptor. -/
def Effect.aside : Effect → Bool
  | .connect _ | .reattach _ | .close _ | .startReconnect _ => false
  | _ => true

namespace Association

theorem record_aside {e : Effect} (he : e.aside = true) (a : Association) :
    a.record e = a := by
  cases e <;> first | rfl | cases he

/-- An effect that is no call of `reattach`. -/
theorem honoured_of_ne {e : Effect} (a : Association)
    (he : ∀ fd, e ≠ .reattach fd) : a.Honoured e :=
  fun fd hfd => absurd hfd (he fd)

/-- An effect that is no start of a reconnect. -/
theorem kept_of_ne {e : Effect} (a : Association)
    (he : ∀ found, e ≠ .startReconnect found) : a.Kept e :=
  fun found hfound => absurd hfound (he found)

end Association

namespace Session

/-- The descriptor of a session that was started with `fd`. -/
def association (fd : Int) (s : Session) : Association :=
  s.trace.foldl Association.record { fd := fd }

/-- Every call of `reattach` received the descriptor associated last, not closed by the layer.
While the session is there, that descriptor is the one it holds, or it was handed on. -/
structure ReattachContract (fd : Int) (s : Session) : Prop where
  calls : AllAlong Association.record Association.Honoured { fd := fd } s.trace
  held : s.freed = false → s.fd = (s.association fd).fd ∨ (s.association fd).handed = true

/-- No reconnect was started while there was a descriptor. -/
def NeverDropped (fd : Int) (s : Session) : Prop :=
  AllAlong Association.record Association.Kept { fd := fd } s.trace

/-! ## What leaves the descriptor alone -/

/-- What the calm pieces do: the descriptor of a live session stays, the delay before a
reconnect does not begin, and only the end of the session closes a descriptor. -/
structure Undisturbed (s t : Session) : Prop where
  alive : t.freed = false → s.freed = false
  fd : t.freed = false → t.fd = s.fd
  callback : t.evwrite.cb = some .onReconnect → s.evwrite.cb = some .onReconnect
  idle : t.evwrite.cb = some .onReconnect → t.status.writing = true → s.status.writing = true
  trace : ∃ es, t.trace = s.trace ++ es ∧
    ∀ e ∈ es, e.aside = true ∨ t.freed = true ∧ ∃ fd, e = .close fd

theorem Undisturbed.refl (s : Session) : Undisturbed s s :=
  ⟨id, fun _ => rfl, id, fun _ => id, [], by simp⟩

theorem Undisturbed.trans {s t u : Session} (h : Undisturbed s t) (h' : Undisturbed t u) :
    Undisturbed s u := by
  refine ⟨fun hu => h.alive (h'.alive hu), fun hu => (h'.fd hu).trans (h.fd (h'.alive hu)),
    fun hcb => h.callback (h'.callback hcb),
    fun hcb hwriting => h.idle (h'.callback hcb) (h'.idle hcb hwriting), ?_⟩
  obtain ⟨es, htrace, hes⟩ := h.trace
  obtain ⟨es', htrace', hes'⟩ := h'.trace
  refine ⟨es ++ es', by rw [htrace', htrace, List.append_assoc], fun e he => ?_⟩
  rcases List.mem_append.mp he with he | he
  · -- what is over stays over
    refine (hes e he).imp_right fun ⟨hfreed, hclose⟩ => ⟨?_, hclose⟩
    cases hu : u.freed with
    | true => rfl
    | false => simp [h'.alive hu] at hfreed
  · exact hes' e he

/-- A step that touches neither the descriptor nor the write event. -/
theorem Undisturbed.same {s t : Session} (es : List Effect) (hfreed : t.freed = s.freed)
    (hfd : t.fd = s.fd) (hcb : t.evwrite.cb = s.evwrite.cb)
    (hwriting : t.status.writing = true → s.status.writing = true)
    (htrace : t.trace = s.trace ++ es) (hes : ∀ e ∈ es, e.aside = true) : Undisturbed s t :=
  ⟨fun h => hfreed ▸ h, fun _ => hfd, fun h => hcb ▸ h, fun _ => hwriting, es, htrace,
    fun e he => .inl (hes e he)⟩

theorem addReadEvent_undisturbed (s : Session) (ev : EvMask) :
    Undisturbed s (s.addReadEvent ev) := by
  unfold addReadEvent
  split
  · exact .same [] rfl rfl rfl id (by simp) (by simp)
  · exact .refl s

theorem addWriteEvent_undisturbed (s : Session) (ev : EvMask) :
    Undisturbed s (s.addWriteEvent ev) := by
  unfold addWriteEvent
  split
  · -- the callback installed is another one
    refine ⟨id, fun _ => rfl, fun hcb => ?_, fun hcb => ?_, [], by simp⟩
    · simp at hcb
    · simp at hcb
  · exact .refl s

theorem sessionAddEvent_undisturbed (s : Session) (ev : EvMask) :
    Undisturbed s (s.sessionAddEvent ev) :=
  (addReadEvent_undisturbed s ev).trans (addWriteEvent_undisturbed _ ev)

theorem emit_undisturbed (s : Session) {e : Effect} (he : e.aside = true) :
    Undisturbed s (s.emit e) :=
  .same [e] rfl rfl rfl id rfl (by simpa using he)

theorem sessionDelEvent_undisturbed (s : Session) :
    Undisturbed s (s.sessionDelEvent .evRead) := by
  have hread : s.sessionDelEvent .evRead = s.delReadEvent .evRead := by
    simp [sessionDelEvent, delWriteEvent, EvMask.evRead]
  rw [hread]
  unfold delReadEvent
  split
  · exact .same [] rfl rfl rfl id (by simp) (by simp)
  · exact .refl s

theorem sessionEnd_undisturbed (s : Session) : Undisturbed s s.sessionEnd := by
  rw [sessionEnd_eq]
  refine ⟨fun h => absurd h.symm Bool.false_ne_true, fun h => absurd h.symm Bool.false_ne_true,
    fun hcb => ?_, fun _ h => absurd h Bool.false_ne_true, s.endEffects, rfl, fun e he => ?_⟩
  · simp only [stopEvents] at hcb
    split at hcb <;> exact hcb
  · rcases List.mem_append.mp he with he | he
    · obtain ⟨m, -, hm⟩ := List.mem_flatMap.mp he
      refine .inl ?_
      simp only [lostEffects, List.mem_cons, List.not_mem_nil, or_false] at hm
      rcases hm with rfl | rfl <;> rfl
    · rcases List.mem_append.mp he with he | he
      · obtain ⟨t, -, rfl⟩ := List.mem_map.mp he
        exact .inl rfl
      · -- the end closes the descriptor
        refine .inr ⟨rfl, ?_⟩
        unfold closeEffects at he
        split at he
        · exact ⟨s.fd, List.mem_singleton.mp he⟩
        · cases he

/-- No primitive operation takes the descriptor from a live session. -/
theorem opRun_undisturbed (op : Op) {s : Session} (hen : op.Enabled s) :
    Undisturbed s (op.run s) := by
  cases op with
  | note e =>
    refine emit_undisturbed s ?_
    obtain ⟨hnote, hfd⟩ := hen
    cases e <;> first
      | rfl
      | exact absurd hnote Bool.false_ne_true
      | exact absurd hfd.symm Bool.false_ne_true
  | configure setting => exact .same [] rfl rfl rfl id (by simp [Op.run]) (by simp)
  | buffer bytes => exact .same [] rfl rfl rfl id (by simp [Op.run]) (by simp)
  | schedule t => exact .same [] rfl rfl rfl id (by simp [Op.run]) (by simp)
  | cancel t => exact .same [] rfl rfl rfl id (by simp [Op.run]) (by simp)
  | close => exact .same [] rfl rfl rfl id (by simp [Op.run, sessionClose]) (by simp)
  | addRead => exact sessionAddEvent_undisturbed s _
  | addWrite => exact sessionAddEvent_undisturbed s _
  | readdRead =>
    have hclear : Undisturbed s { s with status := { s.status with
        reading := s.status.reading && !EvMask.evRead.read
        writing := s.status.writing && !EvMask.evRead.write } } :=
      .same [] rfl rfl rfl (by simp [EvMask.evRead]) (by simp) (by simp)
    exact hclear.trans (sessionAddEvent_undisturbed _ .evRead)
  | startKeepalive =>
    rw [Op.run, sessionStartKeepalive]
    split
    · exact .same [] rfl rfl rfl id (by simp) (by simp)
    · exact .refl s
  | push m =>
    have hpush : Undisturbed s (s.queuePush m).1 :=
      .same [] rfl rfl rfl id (by simp [queuePush, allocate]) (by simp)
    rcases Op.run_push s m with ⟨-, hrun⟩ | ⟨-, hrun⟩
    · rw [hrun]
      exact hpush.trans ((sessionAddEvent_undisturbed _ .evWrite).trans (emit_undisturbed _ rfl))
    · rw [hrun]
      exact .same [] rfl rfl rfl id (by simp [allocate]) (by simp)
  | drain =>
    have hexiting : Undisturbed (s.emit (.drain s.status s.evwrite.cb))
        { s.emit (.drain s.status s.evwrite.cb) with
          status := { s.status with exiting := true } } :=
      .same [] rfl rfl rfl id (by simp) (by simp)
    exact (emit_undisturbed s rfl).trans (hexiting.trans
      ((sessionDelEvent_undisturbed _).trans (sessionAddEvent_undisturbed _ .evWrite)))
  | finish => exact sessionEnd_undisturbed s
  | send buf msg io =>
    have hdirect : ∀ n t, SentDirectly s buf n t → Undisturbed s t := fun n t hsent => by
      cases hsent with
      | nothing => exact .refl s
      | bytes => exact emit_undisturbed s rfl
    have hrun := Op.run_send s buf msg io
    generalize (Op.send buf msg io).run s = u at hrun ⊢
    cases hrun with
    | refused => exact .refl s
    | whole _ n t hsent => exact (hdirect n t hsent).trans (emit_undisturbed _ rfl)
    | noMessage n t hsent =>
      exact (hdirect n t hsent).trans (.same [] rfl rfl rfl id (by simp [allocate]) (by simp))
    | queued _ n t hsent =>
      have hqueued : Undisturbed t
          ((t.allocate.1.emit (.messageCreate msg)).queuePush (remainder buf msg n)).1 :=
        .same [.messageCreate msg] rfl rfl rfl id rfl (by simp [Effect.aside])
      exact (hdirect n t hsent).trans (hqueued.trans ((sessionAddEvent_undisturbed _ .evWrite).trans
        (emit_undisturbed _ rfl)))

theorem Calm.undisturbed {s t : Session} (h : Calm s t) : Undisturbed s t := by
  cases h with
  | op op hen => exact opRun_undisturbed op hen
  | setEvent _ w e hcb =>
    cases w with
    | evwrite => exact .same [] rfl rfl hcb id (by simp [Session.setEvent]) (by simp)
    | evread => exact .same [] rfl rfl rfl id (by simp [Session.setEvent]) (by simp)
    | evkeepalive => exact .same [] rfl rfl rfl id (by simp [Session.setEvent]) (by simp)
  | setStatus _ _ hwriting => exact .same [] rfl rfl rfl hwriting (by simp) (by simp)
  | delRead => exact sessionDelEvent_undisturbed s
  | transmit _ iovMax ios =>
    obtain ⟨_, _, es, hes, h⟩ := settingTransmit_frame s iovMax ios
    rw [h]
    refine .same es rfl rfl rfl id rfl fun e he => ?_
    have hsent := hes e he
    cases e <;> first | rfl | cases hsent
  | takeQueue =>
    exact .same [] rfl rfl rfl id (by simp [Session.takeQueue, sessionSendqueueTake]) (by simp)
  | merge _ q =>
    obtain ⟨q', memory, -, -, hmerged⟩ := sessionSendqueueMerge_frame s q
    rw [hmerged]
    exact .same [] rfl rfl rfl id (by simp) (by simp)
  | answers => exact .same [] rfl rfl rfl id (by simp) (by simp)

theorem Calms.undisturbed {s t : Session} (h : Calms s t) : Undisturbed s t :=
  h.invariant (.refl s) fun _ _ hu hcalm => hu.trans hcalm.undisturbed

/-! ## The descriptor along the trace -/

theorem association_append {fd : Int} {s t : Session} {es : List Effect}
    (h : t.trace = s.trace ++ es) :
    t.association fd = es.foldl Association.record (s.association fd) := by
  rw [association, h, List.foldl_append, association]

/-- The descriptor of a session that never dropped one: it is the one the session holds, and
where there is none, the session has `-1` or what a failed call of `reattach` returned. -/
structure Associated (fd : Int) (s : Session) : Prop where
  kept : (s.association fd).closed = false
  holds : (s.association fd).fd ≠ -1 →
    s.fd = (s.association fd).fd ∧ (s.association fd).handed = false
  without : (s.association fd).fd = -1 → s.fd = -1 ∨ (s.association fd).handed = true

section Undisturbed

variable {fd : Int} {s t : Session}

/-- The trace of a calm piece does not touch the contract. -/
theorem Undisturbed.calls (h : Undisturbed s t)
    (hs : AllAlong Association.record Association.Honoured { fd := fd } s.trace) :
    AllAlong Association.record Association.Honoured { fd := fd } t.trace := by
  obtain ⟨es, htrace, hes⟩ := h.trace
  rw [htrace, allAlong_append]
  refine ⟨hs, allAlong_of_forall fun e he a => a.honoured_of_ne fun fd' => ?_⟩
  rintro rfl
  rcases hes _ he with haside | ⟨-, fd'', hclose⟩
  · cases haside
  · cases hclose

theorem Undisturbed.neverDropped (h : Undisturbed s t) :
    t.NeverDropped fd ↔ s.NeverDropped fd := by
  obtain ⟨es, htrace, hes⟩ := h.trace
  rw [NeverDropped, htrace, allAlong_append]
  refine ⟨fun ht => ht.1, fun hs => ⟨hs, allAlong_of_forall fun e he a =>
    a.kept_of_ne fun found => ?_⟩⟩
  rintro rfl
  rcases hes _ he with haside | ⟨-, fd', hclose⟩
  · cases haside
  · cases hclose

theorem Undisturbed.association (h : Undisturbed s t) (halive : t.freed = false) :
    t.association fd = s.association fd := by
  obtain ⟨es, htrace, hes⟩ := h.trace
  rw [association_append htrace]
  refine foldl_eq_of_forall fun e he a => Association.record_aside ?_ a
  -- nothing is closed before the end
  refine (hes e he).resolve_right ?_
  rintro ⟨hfreed, -⟩
  simp [halive] at hfreed

theorem Undisturbed.associated (h : Undisturbed s t) (hs : s.freed = false → s.Associated fd)
    (halive : t.freed = false) : t.Associated fd := by
  obtain ⟨hkept, hholds, hwithout⟩ := hs (h.alive halive)
  constructor
  · rwa [h.association halive]
  · rwa [h.association halive, h.fd halive]
  · rwa [h.association halive, h.fd halive]

end Undisturbed

/-! ## The start of a reconnect -/

/-- What `session_start_reconnect` does to an associated session: nothing, while the session
waits for its write event, or else it has no descriptor from then on. -/
theorem sessionStartReconnect_association {s : Session} (htype : s.type = .associate)
    (hexit : s.status.exiting = false) :
    (∃ es, s.sessionStartReconnect.1.trace = s.trace ++ .startReconnect s.status :: es ∧
      ∀ e ∈ es, e.aside = true) ∧ s.sessionStartReconnect.1.freed = s.freed ∧
    ((s.status.writing = true ∧ s.sessionStartReconnect.1.fd = s.fd ∧
        s.sessionStartReconnect.1.evwrite = s.evwrite) ∨
      (s.status.writing = false ∧ s.sessionStartReconnect.1.fd = -1)) := by
  cases hwriting : s.status.writing with
  | true =>
    rw [sessionStartReconnect_refused s (.inr hwriting)]
    exact ⟨⟨[], rfl, by simp⟩, rfl, .inl ⟨rfl, rfl, rfl⟩⟩
  | false =>
    rw [sessionStartReconnect_eq s hexit hwriting]
    refine ⟨⟨_, rfl, fun e he => ?_⟩, rfl, .inr ⟨rfl, rfl⟩⟩
    -- the descriptor is gone before `_stop` looks at it
    have hnone : s.dropForeignFd.closeEffects = [] := by
      simp [closeEffects, dropForeignFd, htype]
    rw [stopEffects, hnone, List.append_nil] at he
    obtain ⟨task, -, rfl⟩ := List.mem_map.mp he
    rfl

/-- A start of a reconnect and what comes with it. -/
theorem association_startReconnect (fd : Int) {s t : Session} {found : Status} {es : List Effect}
    (htrace : t.trace = s.trace ++ .startReconnect found :: es) (hes : ∀ e ∈ es, e.aside = true) :
    t.association fd = s.association fd ∧
      (t.NeverDropped fd ↔ s.NeverDropped fd ∧
        (s.association fd).Kept (.startReconnect found)) := by
  have hsame : ∀ a : Association, es.foldl Association.record a = a := fun a =>
    foldl_eq_of_forall fun e he a => Association.record_aside (hes e he) a
  refine ⟨?_, ?_⟩
  · rw [association_append htrace, List.foldl_cons, hsame]
    rfl
  · rw [NeverDropped, htrace, allAlong_append, AllAlong]
    refine and_congr_right fun _ => and_iff_left (allAlong_of_forall fun e he a =>
      a.kept_of_ne fun found' => ?_)
    rintro rfl
    cases hes _ he

/-! ## Steps -/

/-- What a session that never dropped its descriptor has kept of the contract. -/
def Faithful (fd : Int) (s : Session) : Prop :=
  AllAlong Association.record Association.Honoured { fd := fd } s.trace ∧
    (s.freed = false → s.Associated fd)

theorem Faithful.contract {fd : Int} {s : Session} (h : s.Faithful fd) :
    s.ReattachContract fd := by
  refine ⟨h.1, fun halive => ?_⟩
  have hassociated := h.2 halive
  by_cases hfd : (s.association fd).fd = -1
  · rw [hfd]
    exact hassociated.without hfd
  · exact .inl (hassociated.holds hfd).1

/-- A handler that drops no descriptor keeps the contract. -/
theorem Conduct.faithful {fd : Int} {s t : Session} (h : Conduct s t)
    (htype : s.type = .associate) (hs : s.Faithful fd) (hnever : t.NeverDropped fd) :
    t.Faithful fd := by
  cases h with
  | calm h => exact ⟨h.undisturbed.calls hs.1, h.undisturbed.associated hs.2⟩
  | reconnect u h halive hexit ht =>
    have hu := h.undisturbed
    have hutype : u.type = .associate := h.moves.grows.type.trans htype
    have hassociated : u.Associated fd := hu.associated hs.2 halive
    subst ht
    obtain ⟨⟨es, htrace, hes⟩, -, hfd⟩ := sessionStartReconnect_association hutype hexit
    obtain ⟨hsame, hiff⟩ := association_startReconnect fd htrace hes
    constructor
    · rw [htrace, allAlong_append]
      refine ⟨hu.calls hs.1, Association.honoured_of_ne _ (fun _ h => by cases h),
        allAlong_of_forall fun e he a => a.honoured_of_ne fun fd' => ?_⟩
      rintro rfl
      cases hes _ he
    · intro _
      rcases hfd with ⟨-, hfd, -⟩ | ⟨hwriting, hfd⟩
      · -- the refused start changes nothing
        constructor
        · rw [hsame]
          exact hassociated.kept
        · rw [hsame, hfd]
          exact hassociated.holds
        · rw [hsame, hfd]
          exact hassociated.without
      · have hnone : (u.association fd).fd = -1 := by
          rcases (hiff.mp hnever).2 _ rfl with h | h | h
          · simp [hexit] at h
          · simp [hwriting] at h
          · exact h
        constructor
        · rw [hsame]
          exact hassociated.kept
        · rw [hsame]
          exact fun h => absurd hnone h
        · exact fun _ => .inl hfd

/-- A handler after which the session has kept the contract has dropped no descriptor. -/
theorem Conduct.neverDropped {fd : Int} {s t : Session} (h : Conduct s t)
    (htype : s.type = .associate) (hs : s.Faithful fd) (hnever : s.NeverDropped fd)
    (hcontract : t.ReattachContract fd) : t.NeverDropped fd := by
  cases h with
  | calm h => exact h.undisturbed.neverDropped.mpr hnever
  | reconnect u h halive hexit ht =>
    have hu := h.undisturbed
    have hutype : u.type = .associate := h.moves.grows.type.trans htype
    have hassociated : u.Associated fd := hu.associated hs.2 halive
    subst ht
    obtain ⟨⟨es, htrace, hes⟩, hfreed, hfd⟩ := sessionStartReconnect_association hutype hexit
    obtain ⟨hsame, hiff⟩ := association_startReconnect fd htrace hes
    refine hiff.mpr ⟨hu.neverDropped.mpr hnever, fun found hfound => ?_⟩
    cases hfound
    rcases hfd with ⟨hwriting, -⟩ | ⟨-, hfd⟩
    · exact .inr (.inl hwriting)
    · -- a descriptor the session had would be neither held nor handed on now
      refine .inr (.inr ?_)
      by_contra hne
      have hheld := hcontract.held (hfreed.trans halive)
      rw [hsame, hfd] at hheld
      rcases hheld with hheld | hhanded
      · exact hne hheld.symm
      · simp [(hassociated.holds hne).2] at hhanded

/-- The delay before a reconnect is waited out without a descriptor. -/
def DelaysBare (s : Session) : Prop :=
  s.freed = false → s.evwrite.cb = some .onReconnect → s.fd = -1

/-- The start of a reconnect by a session whose write event is registered for another reason,
if it is, or that has no descriptor. -/
theorem sessionStartReconnect_delaysBare {s : Session} (htype : s.type = .associate)
    (hexit : s.status.exiting = false)
    (hs : s.evwrite.cb = some .onReconnect → s.status.writing = true → s.fd = -1) :
    DelaysBare s.sessionStartReconnect.1 := by
  obtain ⟨-, -, ⟨hwriting, hfd, hevent⟩ | ⟨-, hfd⟩⟩ := sessionStartReconnect_association htype hexit
  · intro _ hcb
    rw [hevent] at hcb
    rw [hfd]
    exact hs hcb hwriting
  · exact fun _ _ => hfd

theorem Conduct.delaysBare {s t : Session} (h : Conduct s t) (htype : s.type = .associate)
    (hs : DelaysBare s) : DelaysBare t := by
  have hcalm : ∀ {u}, Calms s u → DelaysBare u := fun h halive hcb => by
    have hu := h.undisturbed
    rw [hu.fd halive]
    exact hs (hu.alive halive) (hu.callback hcb)
  cases h with
  | calm h => exact hcalm h
  | reconnect u h halive hexit ht =>
    subst ht
    exact sessionStartReconnect_delaysBare (h.moves.grows.type.trans htype) hexit
      fun hcb _ => hcalm h halive hcb

/-! ## The attempt -/

/-- The call of `reattach` in `channel_on_reconnect`, and what follows it. -/
theorem channelOnReconnect_cases {s : Session} (halive : s.freed = false)
    (htype : s.type = .associate) (env : Env) :
    ∃ u : Session, u.type = .associate ∧ u.freed = false ∧ u.status.writing = false ∧
      u.trace = s.trace ++ [.reattach s.fd] ∧ u.fd = env.newFd ∧
      ((u.fd < 0 ∧ s.channelOnReconnect env = u.channelErrorIn env .connectFailure) ∨
        (0 ≤ u.fd ∧ s.channelOnReconnect env = u.awaitConnection)) := by
  have hattempt : s.clearWriting.reconnectFd env =
      { s.clearWriting.emit (.reattach s.fd) with fd := env.newFd } := by
    unfold reconnectFd
    rw [show s.clearWriting.type = .associate from htype]
    rfl
  refine ⟨s.clearWriting.reconnectFd env, ?_⟩
  unfold channelOnReconnect
  rw [hattempt]
  refine ⟨htype, halive, rfl, rfl, rfl, ?_⟩
  dsimp only
  split
  · rename_i hfd
    exact .inl ⟨hfd, rfl⟩
  · rename_i hfd
    exact .inr ⟨Int.not_lt.mp hfd, rfl⟩

/-- The call of `reattach` with `-1`, by a session that has no descriptor. -/
theorem Faithful.attempt {fd : Int} {s u : Session} (hs : s.Faithful fd) (halive : s.freed = false)
    (hbare : s.fd = -1) (htrace : u.trace = s.trace ++ [.reattach s.fd]) :
    AllAlong Association.record Association.Honoured { fd := fd } u.trace ∧
      u.association fd = { fd := -1, handed := true, closed := false } ∧
      (u.NeverDropped fd ↔ s.NeverDropped fd) := by
  have hassociated := hs.2 halive
  have hnone : (s.association fd).fd = -1 := by
    by_contra hne
    exact hne ((hassociated.holds hne).1.symm.trans hbare)
  refine ⟨?_, ?_, ?_⟩
  · rw [htrace, allAlong_append]
    refine ⟨hs.1, fun fd' hfd' => ?_, trivial⟩
    cases hfd'
    exact ⟨hbare.trans hnone.symm, hassociated.kept⟩
  · rw [association_append htrace]
    simp [Association.record, hnone, hbare, hassociated.kept]
  · rw [NeverDropped, htrace, allAlong_append]
    exact and_iff_left ⟨Association.kept_of_ne _ (fun _ h => by cases h), trivial⟩

theorem Faithful.channelOnReconnect {fd : Int} {s : Session} (hs : s.Faithful fd)
    (halive : s.freed = false) (htype : s.type = .associate) (hbare : s.fd = -1) (env : Env) :
    ((s.channelOnReconnect env).NeverDropped fd → (s.channelOnReconnect env).Faithful fd) ∧
      (s.NeverDropped fd → (s.channelOnReconnect env).ReattachContract fd →
        (s.channelOnReconnect env).NeverDropped fd) := by
  obtain ⟨u, hutype, -, -, htrace, -, hcases⟩ := channelOnReconnect_cases halive htype env
  obtain ⟨hcalls, hassociation, hiff⟩ := hs.attempt halive hbare htrace
  rcases hcases with ⟨-, hrun⟩ | ⟨hfd, hrun⟩
  · -- the attempt failed, and the session tries again
    have hu : u.Faithful fd := by
      refine ⟨hcalls, fun _ => ⟨?_, ?_, ?_⟩⟩
      · rw [hassociation]
      · rw [hassociation]
        exact fun h => absurd rfl h
      · rw [hassociation]
        exact fun _ => .inr rfl
    rw [hrun]
    have hconduct := (channelErrorIn_outcome u env .connectFailure).conduct
    exact ⟨hconduct.faithful hutype hu, fun hnever =>
      hconduct.neverDropped hutype hu (hiff.mpr hnever)⟩
  · -- a new descriptor
    rw [hrun]
    have hnew : u.awaitConnection.trace = u.trace ++ [.connect u.fd] := rfl
    have hassociated : u.awaitConnection.association fd = { fd := u.fd } :=
      association_append hnew
    have hdrops : u.awaitConnection.NeverDropped fd ↔ u.NeverDropped fd := by
      rw [NeverDropped, hnew, allAlong_append]
      exact and_iff_left ⟨Association.kept_of_ne _ (fun _ h => by cases h), trivial⟩
    refine ⟨fun _ => ⟨?_, fun _ => ⟨?_, ?_, ?_⟩⟩, fun hnever _ => hdrops.mpr (hiff.mpr hnever)⟩
    · rw [hnew, allAlong_append]
      exact ⟨hcalls, Association.honoured_of_ne _ (fun _ h => by cases h), trivial⟩
    · rw [hassociated]
    · rw [hassociated]
      exact fun _ => ⟨rfl, rfl⟩
    · rw [hassociated]
      exact fun h => absurd h (by simp only; omega)

theorem channelOnReconnect_delaysBare {s : Session} (halive : s.freed = false)
    (htype : s.type = .associate) (env : Env) : DelaysBare (s.channelOnReconnect env) := by
  obtain ⟨u, hutype, -, hwriting, -, -, ⟨-, hrun⟩ | ⟨-, hrun⟩⟩ :=
    channelOnReconnect_cases halive htype env
  · rw [hrun]
    rcases channelErrorIn_cases u env .connectFailure with ⟨-, hfreed⟩ | ⟨v, h, hv, hexit, ht⟩
    · intro hback
      simp [hfreed] at hback
    · rw [ht]
      refine sessionStartReconnect_delaysBare (h.grows.type.trans hutype) hexit fun hcb hbusy => ?_
      -- the write event was not registered for the delay
      have hidle := h.calms.undisturbed.idle hcb hbusy
      simp [hwriting] at hidle
  · rw [hrun]
    intro _ hcb
    simp [awaitConnection] at hcb

/-! ## Runs -/

/-- What is true of an associated session in every run. -/
structure Attached (s : Session) : Prop where
  type : s.type = .associate
  callbacks : HasCallbacks s
  bare : DelaysBare s

/-- A step that drops no descriptor keeps the contract, and only such a step does. -/
theorem step_association {iovMax : Nat} (fd : Int) {s t : Session} {i : Input}
    (h : step iovMax s i = some t) (hs : s.Attached) :
    t.Attached ∧
      (s.Faithful fd → t.NeverDropped fd → t.Faithful fd) ∧
      (s.Faithful fd → s.NeverDropped fd → t.ReattachContract fd → t.NeverDropped fd) := by
  have hgrows := step_grows h
  have hcallbacks := step_hasCallbacks h hs.callbacks
  have htype := hgrows.type.trans hs.type
  rcases step_conduct h with hconduct | ⟨w, env, -, hcb, rfl⟩
  · exact ⟨⟨htype, hcallbacks, hconduct.delaysBare hs.type hs.bare⟩,
      hconduct.faithful hs.type, hconduct.neverDropped hs.type⟩
  · have halive := step_alive h
    obtain rfl := hs.callbacks.owner hcb rfl
    have htaken : Undisturbed s (s.setEvent .evwrite s.evwrite.processActive) :=
      (Calm.setEvent halive .evwrite _ (by simp [event])).undisturbed
    let u := s.setEvent .evwrite s.evwrite.processActive
    have hattempt : s.Faithful fd → _ := fun hfaithful =>
      have hu : u.Faithful fd := ⟨htaken.calls hfaithful.1, htaken.associated hfaithful.2⟩
      hu.channelOnReconnect halive hs.type (hs.bare halive hcb) env
    refine ⟨⟨htype, hcallbacks, channelOnReconnect_delaysBare (s := u) halive hs.type env⟩,
      fun hfaithful => (hattempt hfaithful).1, fun hfaithful hnever => ?_⟩
    exact (hattempt hfaithful).2 (htaken.neverDropped.mpr hnever)

theorem started_attached (reattach : Bool) (fd : Int) (env : Env) :
    (started reattach .associate fd env).Attached := by
  have hops := started_ops reattach .associate fd env
  refine ⟨hops.grows.type, started_hasCallbacks reattach .associate fd env, fun _ hcb => ?_⟩
  cases hops.calms.undisturbed.callback hcb

theorem started_faithful (reattach : Bool) (fd : Int) (env : Env) :
    (started reattach .associate fd env).Faithful fd ∧
      (started reattach .associate fd env).NeverDropped fd := by
  have h := (started_ops reattach .associate fd env).calms.undisturbed
  have hnew : Associated fd { created reattach env with fd := fd, type := .associate } :=
    ⟨rfl, fun _ => ⟨rfl, rfl⟩, fun hnone => .inl hnone⟩
  exact ⟨⟨h.calls trivial, h.associated fun _ => hnew⟩, h.neverDropped.mpr trivial⟩

/-- A run that dropped no descriptor kept the contract. -/
theorem faithful_of_run {iovMax : Nat} {reattach : Bool} {fd : Int} {env : Env} {is : List Input}
    {t : Session} (hrun : Run (step iovMax) (started reattach .associate fd env) is t) :
    t.Attached ∧ (t.NeverDropped fd → t.Faithful fd) := by
  refine hrun.invariant (I := fun u => u.Attached ∧ (u.NeverDropped fd → u.Faithful fd))
    ⟨started_attached reattach fd env, fun _ => (started_faithful reattach fd env).1⟩ ?_
  intro u i v hu _ hstep
  obtain ⟨hattached, hkeeps, -⟩ := step_association fd hstep hu.1
  refine ⟨hattached, fun hnever => hkeeps (hu.2 ?_) hnever⟩
  -- the trace only grows
  obtain ⟨es, htrace⟩ := (step_grows hstep).trace
  rw [NeverDropped, ← htrace, allAlong_append] at hnever
  exact hnever.1

/-- An associated session keeps the contract of `reattacher_t` in every state of a run exactly
if `session_start_reconnect` starts no reconnect in it while the session has a descriptor. -/
theorem reattach_contract_iff (iovMax : Nat) (fd : Int) (env : Env) (is : List Input) (t : Session)
    (hrun : Run (step iovMax) (started true .associate fd env) is t) :
    (∀ js u, js <+: is → Run (step iovMax) (started true .associate fd env) js u →
      u.ReattachContract fd) ↔ t.NeverDropped fd := by
  constructor
  · intro hall
    induction hrun with
    | nil => exact (started_faithful true fd env).2
    | @snoc u t is i hrun _ hstep ih =>
      have hnever := ih fun js v hpre => hall js v (hpre.trans (List.prefix_append _ _))
      obtain ⟨hattached, hfaithful⟩ := faithful_of_run hrun
      have hcontract := hall _ t (List.prefix_refl _) (.snoc hrun trivial hstep)
      exact (step_association _ hstep hattached).2.2 (hfaithful hnever) hnever hcontract
  · rintro hnever js u ⟨rest, rfl⟩ hu
    refine Faithful.contract ((faithful_of_run hu).2 ?_)
    -- what is true of all starts in the trace is true of the earlier ones
    have hgrows : Grows u t := (hrun.drop hu).invariant (.refl u)
      fun v i w hv _ hstep => hv.trans (step_grows hstep)
    obtain ⟨es, htrace⟩ := hgrows.trace
    rw [NeverDropped, ← htrace, allAlong_append] at hnever
    exact hnever.1

/-- The connection of a session breaks, and `reattach` is called after the delay. -/
def lostDescriptor : List Input :=
  [.report .evread .evRead, .deliver .evread { read := .data [] }, .expire .evwrite,
    .deliver .evwrite { newFd := 7 }]

/-- `reattach` receives `-1`, and descriptor 5, which the layer did not close, is gone. -/
theorem reattach_contract_lostDescriptor_fails :
    ∃ t, Run (step 1024) (started true .associate 5 {}) lostDescriptor t ∧
      .reattach (-1) ∈ t.trace ∧ .reattach 5 ∉ t.trace ∧ .close 5 ∉ t.trace ∧ t.fd = 7 ∧
      ¬ t.ReattachContract 5 := by
  refine ⟨_, run_iff_exec.mpr rfl, by decide, by decide, by decide, rfl, fun hcontract => ?_⟩
  obtain ⟨-, -, hcalled, -⟩ := hcontract.calls
  exact absurd (hcalled (-1) rfl).1 (by decide)

/-- Data arrives, and the session goes on with its descriptor. -/
theorem reattach_contract_iff_dataArrives :
    ∃ t, Run (step 1024) (started true .associate 5 {})
        [.report .evread .evRead, .deliver .evread { read := .data [1, 2] }] t ∧
      t.ReattachContract 5 := by
  have hrun : Run (step 1024) (started true .associate 5 {})
      [.report .evread .evRead, .deliver .evread { read := .data [1, 2] }] _ :=
    run_iff_exec.mpr rfl
  refine ⟨_, hrun, (reattach_contract_iff 1024 5 {} _ _ hrun).mpr ?_ _ _ (List.prefix_refl _) hrun⟩
  -- the trace has the call of `service.process` only
  exact ⟨Association.kept_of_ne _ (fun _ h => by cases h), trivial⟩

end Session

end Evlite
