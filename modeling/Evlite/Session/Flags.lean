import Evlite.Lib.TransitionSystem
import Evlite.Session.Stream

/-!
# Status Bits and Registrations

`SESSION_READING`, `SESSION_WRITING` and `SESSION_KEEPALIVING` mirror whether the three
events of a session are linked in the event set. Nothing in `session_add_event` or
`session_del_event` looks at the event, so the mirror is kept only as long as every
handler clears the bit of the event that was taken out of the event set, and of no other.

`channel_on_read` decides this by `persist_mode`, the event itself by the `EV_PERSIST` it
was registered with. The two agree as long as a read event is delivered in the mode it was
registered in.

The events have to get there in the first place: for a descriptor that is no proper one, and
for one that the poller refuses, the bit is set all the same. Which descriptors a service adds
events for comes out of nested calls, so the condition on them is read off the log of a run
(`Positive`), which only grows.

## Main results

- `opRun_sound`: every primitive operation keeps the mirror.
- `flags_mirror_registrations`: so does every run in which the mode is steady.
-/

namespace Evlite.Session

open EventView

/-! ## The mirror -/

/-- The status bits say which events are linked in the event set. -/
structure Mirrors (s : Session) : Prop where
  reading : s.status.reading = s.evread.linked
  writing : s.status.writing = s.evwrite.linked
  keepaliving : s.status.keepaliving = s.evkeepalive.linked

/-- No event of the session is linked in the event set. -/
def Unlinked (s : Session) : Prop :=
  s.evread.linked = false ∧ s.evwrite.linked = false ∧ s.evkeepalive.linked = false

/-- The mirror, with what is needed to keep it: a linked read event is with the poller,
only the read event can be persistent, and linked events have a callback. -/
structure Registered (s : Session) : Prop extends Mirrors s where
  polled : s.evread.linked = true → s.evread.inserted = true
  exiting : s.status.exiting = true → s.status.reading = false
  oneshot : s.evwrite.events.persist = false ∧ s.evkeepalive.events.persist = false
  installed : ∀ w, (s.event w).linked = true → (s.event w).cb ≠ none

/-- All events were added for a proper descriptor, and the poller took them. -/
def Positive (s : Session) : Prop := ∀ w ∈ s.watched, 0 < w.1 ∧ w.2 = true

instance (s : Session) : Decidable s.Positive :=
  inferInstanceAs (Decidable (∀ w ∈ s.watched, 0 < w.1 ∧ w.2 = true))

/-- A session not of the `Shared` type keeps the mirror while its events are with the poller. -/
structure Sound (s : Session) : Prop where
  type : s.type ≠ .shared
  registered : s.Positive → s.Registered

theorem Positive.of_append {s t : Session} (ws : List (Int × Bool)) (h : t.watched = s.watched ++ ws)
    (ht : t.Positive) : s.Positive := fun w hw => ht w (h ▸ List.mem_append_left _ hw)

/-- The event added last. -/
theorem Positive.last {s t : Session} {w : Int × Bool} (h : t.watched = s.watched ++ [w])
    (ht : t.Positive) : 0 < w.1 ∧ w.2 = true :=
  ht w (h ▸ List.mem_append_right _ (List.mem_singleton.mpr rfl))

/-- What `Registered` is about. -/
def registrations (s : Session) :=
  (s.evread, s.evwrite, s.evkeepalive, s.status.reading, s.status.writing, s.status.keepaliving,
    s.status.exiting)

theorem Registered.of_eq {s t : Session} (h : t.registrations = s.registrations)
    (hs : s.Registered) : t.Registered := by
  simp only [registrations, Prod.mk.injEq] at h
  obtain ⟨hr, hw, hk, hreading, hwriting, hkeepaliving, hexiting⟩ := h
  refine ⟨⟨?_, ?_, ?_⟩, ?_, ?_, ?_, fun w => ?_⟩
  · rw [hreading, hr]; exact hs.reading
  · rw [hwriting, hw]; exact hs.writing
  · rw [hkeepaliving, hk]; exact hs.keepaliving
  · rw [hr]; exact hs.polled
  · rw [hexiting, hreading]; exact hs.exiting
  · rw [hw, hk]; exact hs.oneshot
  · have hw' := hs.installed w
    cases w <;> simp only [event, hr, hw, hk] at hw' ⊢ <;> exact hw'

/-- A step that touches no registration. -/
theorem Sound.of_eq {s t : Session} (hs : Sound s) (h : t.registrations = s.registrations)
    (htype : t.type = s.type) (hwatched : t.watched = s.watched) : Sound t := by
  refine ⟨htype ▸ hs.type, fun ht => ?_⟩
  exact (hs.registered (ht.of_append [] (by simp [hwatched]))).of_eq h

/-! ## Adding and deleting events -/

/-- The read event registered anew, for a proper descriptor. -/
private theorem registered_addRead {s : Session} (hs : s.Registered) (hfd : 0 < s.fd)
    (hexit : s.status.exiting = false) (ev : EvMask) (hev : ev.read = true) :
    let t : Session := { s with
      evread := ((s.evread.eventSet s.fd ev).eventSetCallback .onRead).evsetsAdd true
        s.setting.timeoutMsecs
      status := { s.status with reading := true }
      watched := s.watched ++ [(s.fd, true)]
      poller := s.poller.tail }
    t.Registered := by
  intro t
  have hinserted : t.evread.inserted = true := by
    refine inserted_evsetsAdd _ _ hfd (by simp [hev]) fun hactive => hs.polled ?_
    have hactive' : s.evread.active = true := hactive
    simp [linked, hactive']
  refine ⟨⟨?_, hs.writing, hs.keepaliving⟩, fun _ => hinserted, ?_, hs.oneshot, fun w hw => ?_⟩
  · show true = t.evread.linked
    simp [linked, hinserted]
  · intro h
    exact absurd (show s.status.exiting = true from h) (by simp [hexit])
  · cases w with
    | evread => simp [event, t]
    | evwrite => exact hs.installed .evwrite hw
    | evkeepalive => exact hs.installed .evkeepalive hw

theorem addReadEvent_sound {s : Session} (hs : Sound s) (ev : EvMask) :
    Sound (s.addReadEvent ev) := by
  unfold addReadEvent
  split
  · rename_i hadd
    have hguard : (s.status.exiting = false ∧ ev.read = true) ∧ s.status.reading = false := by
      simpa using hadd
    rw [if_pos hs.type, if_pos hs.type]
    refine ⟨hs.type, fun hpos => ?_⟩
    obtain ⟨hfd, htakes⟩ := Positive.last (s := s) rfl hpos
    have hreg := hs.registered (Positive.of_append _ rfl hpos)
    dsimp only at htakes ⊢
    rw [htakes]
    exact registered_addRead hreg hfd hguard.1.1
      { ev with persist := ev.persist || s.setting.persistMode } hguard.1.2
  · exact hs

theorem addWriteEvent_sound {s : Session} (hs : Sound s) (ev : EvMask)
    (hev : ev.persist = false) : Sound (s.addWriteEvent ev) := by
  unfold addWriteEvent
  split
  · rename_i hadd
    have hguard : ev.write = true ∧ s.status.writing = false := by simpa using hadd
    refine ⟨hs.type, fun hpos => ?_⟩
    obtain ⟨hfd, htakes⟩ := Positive.last (s := s) rfl hpos
    have hreg := hs.registered (Positive.of_append _ rfl hpos)
    dsimp only at htakes ⊢
    rw [htakes]
    have hlinked : ∀ tv, (((s.evwrite.eventSet s.fd ev).eventSetCallback .onWrite).evsetsAdd
        true tv).linked = true := fun tv => linked_evsetsAdd_of_poll _ _ hfd (by simp [hguard.1])
    refine ⟨⟨hreg.reading, ?_, hreg.keepaliving⟩, hreg.polled, hreg.exiting, ⟨?_, hreg.oneshot.2⟩,
      fun w hw => ?_⟩
    · exact (hlinked _).symm
    · simpa using hev
    · cases w with
      | evwrite => simp [event]
      | evread => exact hreg.installed .evread hw
      | evkeepalive => exact hreg.installed .evkeepalive hw
  · exact hs

theorem sessionAddEvent_sound {s : Session} (hs : Sound s) (ev : EvMask)
    (hev : ev.persist = false) : Sound (s.sessionAddEvent ev) :=
  addWriteEvent_sound (addReadEvent_sound hs ev) ev hev

theorem sessionReaddEvent_sound {s : Session} (hs : Sound s) :
    Sound (s.sessionReaddEvent .evRead) := by
  let u : Session := { s with status := { s.status with reading := false } }
  have hu : s.sessionReaddEvent .evRead = u.sessionAddEvent .evRead := by
    simp [sessionReaddEvent, EvMask.evRead, u]
  have hread : Sound (u.addReadEvent .evRead) := by
    refine ⟨?_, fun hpos => ?_⟩
    · rw [core_type (addReadEvent_core u .evRead)]
      exact hs.type
    cases hexit : s.status.exiting with
    | true =>
      -- the bit is clear already, and nothing is registered
      have hsame : u.addReadEvent .evRead = u := by simp [addReadEvent, u, hexit]
      rw [hsame] at hpos ⊢
      have hreg := hs.registered hpos
      refine hreg.of_eq ?_
      simp [registrations, u, hreg.exiting hexit]
    | false =>
      have hadd : (!u.status.exiting && EvMask.evRead.read && !u.status.reading) = true := by
        simp [u, hexit, EvMask.evRead]
      have htype : u.type ≠ .shared := hs.type
      unfold addReadEvent at hpos ⊢
      rw [if_pos hadd, if_pos htype, if_pos htype] at hpos ⊢
      obtain ⟨hfd, htakes⟩ := Positive.last (s := s) rfl hpos
      have hreg := hs.registered (Positive.of_append _ rfl hpos)
      have htakes' : u.poller.headD true = true := htakes
      dsimp only
      rw [htakes']
      exact registered_addRead hreg hfd hexit
        { EvMask.evRead with persist := EvMask.evRead.persist || s.setting.persistMode } rfl
  rw [hu]
  exact addWriteEvent_sound hread .evRead rfl

/-- An event taken out of the event set. -/
private theorem installed_del {s : Session} (hs : s.Registered) {t : Session} (w : Which)
    (hw : (t.event w).linked = false) (hother : ∀ w', w' ≠ w → t.event w' = s.event w') :
    ∀ w', (t.event w').linked = true → (t.event w').cb ≠ none := by
  intro w' hlinked
  by_cases h : w' = w
  · rw [h, hw] at hlinked
    cases hlinked
  · rw [hother w' h] at hlinked ⊢
    exact hs.installed w' hlinked

theorem delReadEvent_sound {s : Session} (hs : Sound s) (ev : EvMask) :
    Sound (s.delReadEvent ev) := by
  unfold delReadEvent
  split
  · refine ⟨hs.type, fun hpos => ?_⟩
    have hreg := hs.registered hpos
    refine ⟨⟨by simp, hreg.writing, hreg.keepaliving⟩, by simp, fun _ => rfl, hreg.oneshot,
      installed_del hreg .evread rfl fun w hw => ?_⟩
    cases w <;> first | exact absurd rfl hw | rfl
  · exact hs

theorem delWriteEvent_sound {s : Session} (hs : Sound s) (ev : EvMask) :
    Sound (s.delWriteEvent ev) := by
  unfold delWriteEvent
  split
  · refine ⟨hs.type, fun hpos => ?_⟩
    have hreg := hs.registered hpos
    refine ⟨⟨hreg.reading, by simp, hreg.keepaliving⟩, hreg.polled, hreg.exiting, hreg.oneshot,
      installed_del hreg .evwrite rfl fun w hw => ?_⟩
    cases w <;> first | exact absurd rfl hw | rfl
  · exact hs

theorem sessionDelEvent_sound {s : Session} (hs : Sound s) (ev : EvMask) :
    Sound (s.sessionDelEvent ev) :=
  delWriteEvent_sound (delReadEvent_sound hs ev) ev

theorem sessionStartKeepalive_sound {s : Session} (hs : Sound s) :
    Sound s.sessionStartKeepalive := by
  unfold sessionStartKeepalive
  split
  · rename_i hadd
    refine ⟨hs.type, fun hpos => ?_⟩
    have hreg := hs.registered hpos
    have hlinked : (((s.evkeepalive.eventSet (-1) {}).eventSetCallback .onKeepalive).evsetsAdd true
        s.setting.keepaliveMsecs).linked = true := linked_evsetsAdd_of_timer _ _ _ hadd.1
    refine ⟨⟨hreg.reading, hreg.writing, hlinked.symm⟩, hreg.polled, hreg.exiting,
      ⟨hreg.oneshot.1, by simp⟩, fun w hw => ?_⟩
    cases w with
    | evkeepalive => simp [event]
    | evread => exact hreg.installed .evread hw
    | evwrite => exact hreg.installed .evwrite hw
  · exact hs

/-! ## The primitive operations -/

/-- `_stop` leaves no event linked. -/
theorem stopEvents_unlinked {s : Session} (hs : s.Mirrors) : s.stopEvents.Unlinked := by
  have hread := hs.reading
  have hwrite := hs.writing
  have hkeep := hs.keepaliving
  refine ⟨?_, ?_, ?_⟩ <;> simp only [stopEvents] <;> split <;> simp_all

theorem sessionEnd_unlinked {s : Session} (hs : s.Mirrors) : s.sessionEnd.Unlinked := by
  rw [sessionEnd_eq]
  exact stopEvents_unlinked hs

/-- What `_stop` leaves of the events. -/
theorem stopEvents_events (s : Session) (w : Which) :
    (s.stopEvents.event w).events = (s.event w).events ∧
      (s.stopEvents.event w).cb = (s.event w).cb := by
  cases w <;> simp only [stopEvents, event] <;> split <;> exact ⟨rfl, rfl⟩

theorem sessionEnd_sound {s : Session} (hs : Sound s) : Sound s.sessionEnd := by
  have hevents : ∀ w, s.sessionEnd.event w = s.stopEvents.event w := by
    intro w
    rw [sessionEnd_eq]
    cases w <;> rfl
  have hpersist : ∀ w, (s.sessionEnd.event w).events = (s.event w).events := fun w => by
    rw [hevents w]
    exact (stopEvents_events s w).1
  have htype : s.sessionEnd.type = s.type := by rw [sessionEnd_eq]; rfl
  have hwatched : s.sessionEnd.watched = s.watched := by rw [sessionEnd_eq]; rfl
  have hstatus : s.sessionEnd.status = {} := by rw [sessionEnd_eq]
  refine ⟨htype ▸ hs.type, fun hpos => ?_⟩
  · have hreg := hs.registered (hpos.of_append [] (by simp [hwatched]))
    obtain ⟨hread, hwrite, hkeep⟩ := sessionEnd_unlinked hreg.toMirrors
    refine ⟨⟨?_, ?_, ?_⟩, ?_, ?_, ⟨?_, ?_⟩, fun w hw => ?_⟩
    · rw [hread, hstatus]
    · rw [hwrite, hstatus]
    · rw [hkeep, hstatus]
    · simp [hread]
    · simp [hstatus]
    · exact (congrArg (·.persist) (hpersist .evwrite)).trans hreg.oneshot.1
    · exact (congrArg (·.persist) (hpersist .evkeepalive)).trans hreg.oneshot.2
    · cases w <;> simp_all [event]

private theorem run_send_sound {s : Session} (hs : Sound s) (buf : List UInt8) (msg : Nat)
    (io : IoResult) : Sound ((Op.send buf msg io).run s) := by
  have hdirect : ∀ n t, SentDirectly s buf n t → Sound t := fun n t hsent => by
    cases hsent with
    | nothing => exact hs
    | bytes => exact hs.of_eq rfl rfl rfl
  have hrun := Op.run_send s buf msg io
  generalize (Op.send buf msg io).run s = u at hrun
  cases hrun with
  | refused => exact hs
  | whole _ n t hsent => exact (hdirect n t hsent).of_eq rfl rfl rfl
  | noMessage n t hsent => exact (hdirect n t hsent).of_eq rfl rfl rfl
  | queued _ n t hsent =>
    have hqueued : Sound ((t.allocate.1.emit (.messageCreate msg)).queuePush (remainder buf msg n)).1 :=
      (hdirect n t hsent).of_eq rfl rfl rfl
    exact (sessionAddEvent_sound hqueued .evWrite rfl).of_eq rfl rfl rfl

private theorem run_drain_sound {s : Session} (hs : Sound s) : Sound (Op.drain.run s) := by
  let u : Session := { s.emit (.drain s.status s.evwrite.cb) with
    status := { s.status with exiting := true } }
  -- the read event goes, and then nothing is wrong with an exiting session
  have hdel : Sound (u.delReadEvent .evRead) := by
    refine ⟨?_, fun hpos => ?_⟩
    · unfold delReadEvent
      split <;> exact hs.type
    · unfold delReadEvent at hpos ⊢
      split at hpos
      · rename_i hreading
        rw [if_pos hreading]
        have hreg := hs.registered hpos
        refine ⟨⟨by simp, hreg.writing, hreg.keepaliving⟩, by simp, fun _ => rfl, hreg.oneshot,
          installed_del hreg .evread rfl fun w hw => ?_⟩
        cases w <;> first | exact absurd rfl hw | rfl
      · rename_i hreading
        rw [if_neg hreading]
        have hreg := hs.registered hpos
        have hoff : s.status.reading = false := by simpa [u, emit, EvMask.evRead] using hreading
        refine ⟨⟨hreg.reading, hreg.writing, hreg.keepaliving⟩, hreg.polled, fun _ => hoff,
          hreg.oneshot, fun w hw => ?_⟩
        cases w
        · exact hreg.installed .evread hw
        · exact hreg.installed .evwrite hw
        · exact hreg.installed .evkeepalive hw
  exact sessionAddEvent_sound (delWriteEvent_sound hdel .evRead) .evWrite rfl

/-- Every primitive operation keeps the mirror. -/
theorem opRun_sound (op : Op) {s : Session} (hs : Sound s) : Sound (op.run s) := by
  cases op with
  | note e => exact hs.of_eq rfl rfl rfl
  | configure setting => exact hs.of_eq rfl rfl rfl
  | buffer bytes => exact hs.of_eq rfl rfl rfl
  | schedule t => exact hs.of_eq rfl rfl rfl
  | cancel t => exact hs.of_eq rfl rfl rfl
  | close => exact hs.of_eq rfl rfl rfl
  | addRead => exact sessionAddEvent_sound hs .evRead rfl
  | addWrite => exact sessionAddEvent_sound hs .evWrite rfl
  | readdRead => exact sessionReaddEvent_sound hs
  | startKeepalive => exact sessionStartKeepalive_sound hs
  | send buf msg io => exact run_send_sound hs buf msg io
  | push m =>
    have hpush : Sound (s.queuePush m).1 := hs.of_eq rfl rfl rfl
    rcases Op.run_push s m with ⟨-, hrun⟩ | ⟨-, hrun⟩
    · rw [hrun]
      exact (sessionAddEvent_sound hpush .evWrite rfl).of_eq rfl rfl rfl
    · rw [hrun]
      exact hs.of_eq rfl rfl rfl
  | drain => exact run_drain_sound hs
  | finish => exact sessionEnd_sound hs

theorem Ops.sound {s t : Session} (h : Ops s t) (hs : Sound s) : Sound t :=
  h.invariant hs fun op _ hu _ => opRun_sound op hu

/-! ## Errors, reconnects, handlers -/

theorem sessionStartReconnect_sound {s : Session} (hs : Sound s) :
    Sound s.sessionStartReconnect.1 := by
  by_cases h : s.status.exiting = true ∨ s.status.writing = true
  · rw [sessionStartReconnect_refused s h]
    exact hs.of_eq rfl rfl rfl
  · have hfree : s.status.exiting = false ∧ s.status.writing = false := by simpa using h
    rw [sessionStartReconnect_eq s hfree.1 hfree.2]
    have hevents := stopEvents_events s
    refine ⟨hs.type, fun hpos => ?_⟩
    · have hreg := hs.registered hpos
      obtain ⟨hread, -, hkeep⟩ := stopEvents_unlinked hreg.toMirrors
      have hdelay : (reconnectEvent s.evwrite).linked = true :=
        linked_evsetsAdd_of_timer _ _ _ (by decide)
      refine ⟨⟨hread.symm, hdelay.symm, hkeep.symm⟩, ?_, fun _ => rfl, ⟨?_, ?_⟩, fun w hw => ?_⟩
      · simp [hread]
      · simp [reconnectEvent]
      · exact (congrArg (·.persist) (hevents .evkeepalive).1).trans hreg.oneshot.2
      · cases w with
        | evwrite => simp [event, reconnectEvent]
        | evread => exact absurd hw (by simp [event, hread])
        | evkeepalive => exact absurd hw (by simp [event, hkeep])

theorem Outcome.sound {s t : Session} (h : Outcome s t) (hs : Sound s) : Sound t := by
  cases h with
  | settled h => exact h.sound hs
  | reconnect u h _ _ ht => exact ht ▸ sessionStartReconnect_sound (h.sound hs)

theorem delPersistentRead_sound {s : Session} (hs : Sound s) : Sound s.delPersistentRead := by
  unfold delPersistentRead
  split
  · exact sessionDelEvent_sound hs .evRead
  · exact hs

/-- An event moved between the lists of the event set, but linked before and after. -/
theorem setEvent_sound {s : Session} (hs : Sound s) (w : Which) (e : EventView Handler)
    (hbefore : (s.event w).linked = true) (hafter : e.linked = true)
    (hins : e.inserted = (s.event w).inserted) (hevents : e.events = (s.event w).events)
    (hcb : e.cb = (s.event w).cb) : Sound (s.setEvent w e) := by
  cases w with
  | evread =>
    simp only [event] at hbefore hins hevents hcb
    refine ⟨hs.type, fun hpos => ?_⟩
    · -- the bit stays right, since the event stays registered
      have hreg := hs.registered hpos
      refine ⟨⟨?_, hreg.writing, hreg.keepaliving⟩, fun _ => ?_, hreg.exiting, hreg.oneshot, ?_⟩
      · exact (hreg.reading.trans hbefore).trans hafter.symm
      · exact hins.trans (hreg.polled hbefore)
      · intro w hw
        cases w with
        | evread => exact fun h => hreg.installed .evread hbefore (hcb.symm.trans h)
        | evwrite => exact hreg.installed .evwrite hw
        | evkeepalive => exact hreg.installed .evkeepalive hw
  | evwrite =>
    simp only [event] at hbefore hins hevents hcb
    refine ⟨hs.type, fun hpos => ?_⟩
    · have hreg := hs.registered hpos
      refine ⟨⟨hreg.reading, ?_, hreg.keepaliving⟩, hreg.polled, hreg.exiting,
        ⟨hevents.symm ▸ hreg.oneshot.1, hreg.oneshot.2⟩, ?_⟩
      · exact (hreg.writing.trans hbefore).trans hafter.symm
      · intro w hw
        cases w with
        | evwrite => exact fun h => hreg.installed .evwrite hbefore (hcb.symm.trans h)
        | evread => exact hreg.installed .evread hw
        | evkeepalive => exact hreg.installed .evkeepalive hw
  | evkeepalive =>
    simp only [event] at hbefore hins hevents hcb
    refine ⟨hs.type, fun hpos => ?_⟩
    · have hreg := hs.registered hpos
      refine ⟨⟨hreg.reading, hreg.writing, ?_⟩, hreg.polled, hreg.exiting,
        ⟨hreg.oneshot.1, hevents.symm ▸ hreg.oneshot.2⟩, ?_⟩
      · exact (hreg.keepaliving.trans hbefore).trans hafter.symm
      · intro w hw
        cases w with
        | evkeepalive => exact fun h => hreg.installed .evkeepalive hbefore (hcb.symm.trans h)
        | evread => exact hreg.installed .evread hw
        | evwrite => exact hreg.installed .evwrite hw

/-- A read event is taken for its handler, and its bit cleared in the mode it is in. The
two go together if that is the mode the event was registered in. -/
theorem takeRead_sound {s : Session} (hs : Sound s) (hactive : s.evread.active = true)
    (hmode : s.evread.events.persist = s.setting.persistMode) :
    Sound (s.setEvent .evread s.evread.processActive).clearReading := by
  have hlinked : s.evread.linked = true := by simp [linked, hactive]
  cases hpersist : s.evread.events.persist with
  | true =>
    have hclear : (s.setEvent .evread s.evread.processActive).clearReading =
        s.setEvent .evread s.evread.processActive := by
      unfold clearReading
      exact if_pos (hmode ▸ hpersist)
    rw [hclear]
    -- a persistent event stays with the poller, and its bit is kept
    have hinserted := processActive_inserted_of_persist s.evread hpersist
    refine ⟨hs.type, fun hpos => ?_⟩
    · have hreg := hs.registered hpos
      have hstill : s.evread.processActive.linked = true := by
        simp [linked, hinserted, hreg.polled hlinked]
      exact (setEvent_sound hs .evread s.evread.processActive hlinked hstill hinserted (by simp [event])
        (by simp [event])).registered hpos
  | false =>
    have hclear : (s.setEvent .evread s.evread.processActive).clearReading =
        { s with evread := s.evread.processActive, status := { s.status with reading := false } } := by
      unfold clearReading
      exact if_neg (by simp [Session.setEvent, ← hmode, hpersist])
    -- an event for one time is out, and its bit is cleared
    have hout := processActive_linked_of_oneshot s.evread hpersist
    rw [hclear]
    refine ⟨hs.type, fun hpos => ?_⟩
    · have hreg := hs.registered hpos
      refine ⟨⟨hout.symm, hreg.writing, hreg.keepaliving⟩, by simp [hout], fun _ => rfl,
        hreg.oneshot, installed_del hreg .evread hout fun w hw => ?_⟩
      cases w <;> first | exact absurd rfl hw | rfl

/-- The write event is taken for its handler, and its bit cleared. -/
theorem takeWrite_sound {s : Session} (hs : Sound s) :
    Sound (s.setEvent .evwrite s.evwrite.processActive).clearWriting := by
  refine ⟨hs.type, fun hpos => ?_⟩
  · have hreg := hs.registered hpos
    have hout := processActive_linked_of_oneshot s.evwrite hreg.oneshot.1
    refine ⟨⟨hreg.reading, hout.symm, hreg.keepaliving⟩, hreg.polled, hreg.exiting, ⟨?_, hreg.oneshot.2⟩,
      installed_del hreg .evwrite hout fun w hw => ?_⟩
    · simpa [clearWriting, Session.setEvent] using hreg.oneshot.1
    · cases w <;> first | exact absurd rfl hw | rfl

/-- The keepalive event is taken for its handler, and its bit cleared. -/
theorem takeKeepalive_sound {s : Session} (hs : Sound s) :
    Sound { s.setEvent .evkeepalive s.evkeepalive.processActive with
      status := { s.status with keepaliving := false } } := by
  refine ⟨hs.type, fun hpos => ?_⟩
  · have hreg := hs.registered hpos
    have hout := processActive_linked_of_oneshot s.evkeepalive hreg.oneshot.2
    refine ⟨⟨hreg.reading, hreg.writing, hout.symm⟩, hreg.polled, hreg.exiting, ⟨hreg.oneshot.1, ?_⟩,
      installed_del hreg .evkeepalive hout fun w hw => ?_⟩
    · simpa [Session.setEvent] using hreg.oneshot.2
    · cases w <;> first | exact absurd rfl hw | rfl

theorem channelOnWrite_sound {s : Session} (hs : Sound s.clearWriting) (iovMax : Nat)
    (ev : EvMask) (env : Env) (halive : s.freed = false) :
    Sound (s.channelOnWrite iovMax ev env) := by
  unfold channelOnWrite
  have halive' : s.clearWriting.freed = false := halive
  generalize s.clearWriting = u at hs halive'
  dsimp only
  split
  · split
    · have hsent : Sound (u.settingTransmit iovMax env.writev).1 ∧
          (u.settingTransmit iovMax env.writev).1.freed = false := by
        obtain ⟨q, off, tr, -, h⟩ := settingTransmit_frame u iovMax env.writev
        rw [h]
        exact ⟨hs.of_eq rfl rfl rfl, halive'⟩
      generalize u.settingTransmit iovMax env.writev = r at hsent
      split
      · exact (channelErrorIn_outcome r.1 env .writeFailure).sound hsent.1
      · -- more to send, an end, or nothing left
        rcases afterTransmit_cases r.1 env with ⟨-, h⟩ | h | ⟨-, -, h⟩
        · rw [h]
          exact sessionAddEvent_sound hsent.1 .evWrite rfl
        · exact h.sound hsent.1
        · rw [h]
          exact hsent.1
    · exact hs
  · exact (channelShutdown_ops u (runCalls_ops env.shutdown)).sound hs

theorem channelOnReconnect_sound {s : Session} (hs : Sound s.clearWriting) (env : Env) :
    Sound (s.channelOnReconnect env) := by
  unfold channelOnReconnect
  generalize s.clearWriting = u at hs
  have hfd : Sound (u.reconnectFd env) := by
    unfold reconnectFd
    split
    · exact hs.of_eq rfl rfl rfl
    · exact hs.of_eq rfl rfl rfl
    · exact hs
  generalize u.reconnectFd env = v at hfd
  dsimp only
  split
  · exact (channelErrorIn_outcome v env .connectFailure).sound hfd
  · refine ⟨hfd.type, fun hpos => ?_⟩
    have hreg := hfd.registered (Positive.of_append _ rfl hpos)
    -- an event on a descriptor of value 0 would not be registered
    obtain ⟨hopen, htakes⟩ := Positive.last (s := v) rfl hpos
    have hlinked : (((v.evwrite.eventSet v.fd .evWrite).eventSetCallback .reconnected).evsetsAdd
        (v.poller.headD true) (-1)).linked = true := by
      rw [show v.poller.headD true = true from htakes]
      exact linked_evsetsAdd_of_poll _ _ hopen rfl
    refine ⟨⟨hreg.reading, hlinked.symm, hreg.keepaliving⟩, hreg.polled, hreg.exiting,
      ⟨by simp [awaitConnection, EvMask.evWrite], hreg.oneshot.2⟩, fun w hw => ?_⟩
    cases w with
    | evwrite => simp [event, awaitConnection]
    | evread => exact hreg.installed .evread hw
    | evkeepalive => exact hreg.installed .evkeepalive hw

theorem resume_sound {s : Session} (hs : Sound s) (q : List Message) : Sound (s.resume q) := by
  have hmerge : Sound (s.sessionSendqueueMerge q) := by
    obtain ⟨q', memory, -, -, hmerged⟩ := sessionSendqueueMerge_frame s q
    rw [hmerged]
    exact hs.of_eq rfl rfl rfl
  exact sessionStartKeepalive_sound
    (sessionAddEvent_sound (sessionAddEvent_sound hmerge .evRead rfl) .evWrite rfl)

theorem reconnected_sound {s : Session} (hs : Sound s.clearWriting) (ev : EvMask) (env : Env) :
    Sound (s.reconnected ev env) := by
  cases hwrite : ev.write with
  | false =>
    rw [reconnected_timeout s env hwrite]
    exact (timeout_outcome _ env).sound hs
  | true =>
    cases hconn : env.connected with
    | false =>
      rw [reconnected_failed s hwrite hconn]
      exact (channelErrorIn_outcome _ env .connectStatus).sound hs
    | true =>
      rw [reconnected_connected s hwrite hconn]
      have htaken : Sound s.clearWriting.takeQueue := hs.of_eq rfl rfl rfl
      have hstart := (Callback.run_ops env.start s.clearWriting.takeQueue).sound htaken
      unfold whenAlive
      split
      · exact hstart
      · exact resume_sound hstart _

/-! ## Steps -/

/-- The session when `service.process` has returned to the read handler. -/
def processed (s : Session) (env : Env) : Session :=
  let s := (s.setEvent .evread s.evread.processActive).clearReading.receive env.read
  if env.running then (s.process env.process).1 else s

/-- The persist mode of a read event is steady: it is delivered in the mode it was
registered in, and `service.process` leaves the mode as it is. -/
def SteadyMode (s : Session) : Input → Prop
  | .deliver .evread env =>
    s.evread.events.persist = s.setting.persistMode ∧
      (s.evread.results.read = true →
        (s.processed env).setting.persistMode = s.setting.persistMode)
  | _ => True

instance (s : Session) (i : Input) : Decidable (SteadyMode s i) :=
  match i with
  | .deliver .evread env => inferInstanceAs (Decidable
      (s.evread.events.persist = s.setting.persistMode ∧
        (s.evread.results.read = true →
          (s.processed env).setting.persistMode = s.setting.persistMode)))
  | .deliver .evwrite _ | .deliver .evkeepalive _ | .report _ _ | .expire _ | .datagram _ _
  | .schedule _ _ | .call _ | .shutdown _ | .answers _ _ => inferInstanceAs (Decidable True)

theorem channelOnRead_sound {s : Session} (hs : Sound s.clearReading) (halive : s.freed = false)
    (ev : EvMask) (env : Env) : Sound (s.channelOnRead ev env) := by
  cases channelOnRead_course s halive ev env with
  | ended h => exact h.sound hs
  | rearmed _ _ u h _ ht =>
    rw [ht]
    split
    · exact h.sound hs
    · exact sessionAddEvent_sound (h.sound hs) .evRead rfl
  | failed u h _ ht => exact ht.sound (delPersistentRead_sound (h.sound hs))

/-- An event without a callback of its own does nothing to the mirror: there is none. -/
private theorem takeNone_sound {s : Session} (hs : Sound s) (w : Which)
    (hactive : (s.event w).active = true) (hcb : (s.event w).cb = none) :
    Sound (s.setEvent w (s.event w).processActive) := by
  have hlinked : (s.event w).linked = true := by simp [linked, hactive]
  have hnot : ¬ s.Positive := fun hpos => (hs.registered hpos).installed w hlinked hcb
  refine ⟨?_, fun hpos => absurd ?_ hnot⟩
  · cases w <;> exact hs.type
  · cases w <;> exact hpos

/-- Every step in a steady mode keeps the mirror. -/
theorem step_sound {iovMax : Nat} {s t : Session} {i : Input} (hs : Sound s)
    (hcallbacks : HasCallbacks s) (hmode : SteadyMode s i) (h : step iovMax s i = some t) :
    Sound t := by
  have halive := step_alive h
  cases step_cases h with
  | report w res hinserted =>
    exact setEvent_sound hs w _ (by simp [linked, hinserted]) (by simp) (by simp) (by simp) (by simp)
  | expire w htimer =>
    exact setEvent_sound hs w _ (by simp [linked, htimer]) (by simp) (by simp) (by simp) (by simp)
  | uninstalled w _ hactive hcb => exact takeNone_sound hs w hactive hcb
  | onRead w env hactive hcb =>
    -- the callback is the one of the event that it was installed on
    obtain rfl := hcallbacks.owner hcb rfl
    exact channelOnRead_sound (takeRead_sound hs hactive hmode.1) halive _ env
  | onWrite w env _ hcb =>
    obtain rfl := hcallbacks.owner hcb rfl
    exact channelOnWrite_sound (takeWrite_sound hs) iovMax _ env halive
  | onKeepalive w env _ hcb =>
    obtain rfl := hcallbacks.owner hcb rfl
    exact (channelOnKeepalive_ops _ env).sound (takeKeepalive_sound hs)
  | onReconnect w env _ hcb =>
    obtain rfl := hcallbacks.owner hcb rfl
    exact channelOnReconnect_sound (takeWrite_sound hs) env
  | reconnected w env _ hcb =>
    obtain rfl := hcallbacks.owner hcb rfl
    exact reconnected_sound (takeWrite_sound hs) _ env
  | onSchedule w _ _ hcb => cases hcallbacks w .onSchedule hcb
  | ops _ _ _ h => exact h.sound hs
  | answers memory poller => exact hs.of_eq rfl rfl rfl

/-! ## The end of a session -/

/-- A session that is gone has no status bit left. -/
def Ended (s : Session) : Prop := s.freed = true → s.status = {}

theorem Ended.of_alive {s : Session} (h : s.freed = false) : Ended s := fun hfreed => by
  simp [h] at hfreed

theorem Ops.ended {s t : Session} (h : Ops s t) (hs : Ended s) : Ended t := by
  refine h.invariant hs fun op u hu hen => ?_
  by_cases hfinish : op = .finish
  · subst hfinish
    intro _
    simp only [Op.run]
    rw [sessionEnd_eq]
  · cases op with
    | note e => exact hu
    | finish => exact absurd rfl hfinish
    | push m => exact .of_alive ((Op.run_freed _ u hfinish).trans hen.1)
    | drain => exact .of_alive ((Op.run_freed _ u hfinish).trans hen.1)
    | _ => exact .of_alive ((Op.run_freed _ u hfinish).trans hen)

theorem sessionStartReconnect_freed (s : Session) :
    s.sessionStartReconnect.1.freed = s.freed := by
  by_cases h : s.status.exiting = true ∨ s.status.writing = true
  · rw [sessionStartReconnect_refused s h]
    rfl
  · have hfree : s.status.exiting = false ∧ s.status.writing = false := by simpa using h
    rw [sessionStartReconnect_eq s hfree.1 hfree.2]
    rfl

theorem Move.ended {s t : Session} (h : Move s t) (hs : Ended s) : Ended t := by
  cases h with
  | op op hen => exact (Ops.single op hen).ended hs
  | setEvent halive w e => cases w <;> exact .of_alive halive
  | setStatus halive => exact .of_alive halive
  | delRead halive => exact .of_alive ((sessionDelEvent_freed s _).trans halive)
  | transmit halive iovMax ios =>
    obtain ⟨_, _, _, -, h⟩ := settingTransmit_frame s iovMax ios
    rw [h]
    exact .of_alive halive
  | startReconnect halive => exact .of_alive ((sessionStartReconnect_freed s).trans halive)
  | reconnectFd halive env =>
    unfold Session.reconnectFd
    split <;> exact .of_alive halive
  | awaitConnection halive => exact .of_alive halive
  | takeQueue halive => exact .of_alive halive
  | merge halive q => exact .of_alive ((sessionSendqueueMerge_freed s q).trans halive)
  | answers halive => exact .of_alive halive

theorem step_ended {iovMax : Nat} {s t : Session} {i : Input} (hs : Ended s)
    (h : step iovMax s i = some t) : Ended t :=
  (step_moves h).invariant hs fun _ _ hu hmove => hmove.ended hu

/-! ## Still polled -/

/-- An operation on a session takes the read event away only on its way to the end. -/
theorem opRun_keepsReading (op : Op) {s : Session} (hen : op.Enabled s)
    (hs : s.status.reading = true ∨ s.status.exiting = true ∨ s.freed = true) :
    (op.run s).status.reading = true ∨ (op.run s).status.exiting = true ∨
      (op.run s).freed = true := by
  -- adding an event never clears the bit
  have hadd : ∀ (u : Session) (ev : EvMask),
      u.status.reading = true ∨ u.status.exiting = true ∨ u.freed = true →
        (u.sessionAddEvent ev).status.reading = true ∨
          (u.sessionAddEvent ev).status.exiting = true ∨ (u.sessionAddEvent ev).freed = true := by
    intro u ev hu
    rw [sessionAddEvent_exiting, sessionAddEvent_freed]
    refine hu.imp_left fun hreading => ?_
    simp only [sessionAddEvent, addReadEvent, addWriteEvent, hreading, Bool.not_true, Bool.and_false,
      Bool.false_eq_true, if_false]
    split <;> first | rfl | exact hreading
  cases op with
  | note e => exact hs
  | configure setting => exact hs
  | buffer bytes => exact hs
  | schedule t => exact hs
  | cancel t => exact hs
  | close => exact hs
  | addRead => exact hadd s _ hs
  | addWrite => exact hadd s _ hs
  | push m =>
    rcases Op.run_push s m with ⟨-, hrun⟩ | ⟨-, hrun⟩
    · rw [hrun]
      exact hadd (s.queuePush m).1 .evWrite hs
    · rw [hrun]
      exact hs
  | finish =>
    right; right
    rw [Op.run, sessionEnd_eq]
  | drain =>
    right; left
    simp [Op.run]
  | startKeepalive =>
    rw [Op.run, sessionStartKeepalive_exiting, sessionStartKeepalive_freed]
    refine hs.imp_left fun hreading => ?_
    unfold sessionStartKeepalive
    split <;> exact hreading
  | readdRead =>
    rw [Op.run, sessionReaddEvent_exiting, sessionReaddEvent_freed]
    cases hexit : s.status.exiting with
    | true => exact .inr (.inl rfl)
    | false =>
      left
      simp [sessionReaddEvent, sessionAddEvent, addReadEvent, addWriteEvent, EvMask.evRead, hexit]
  | send buf msg io =>
    have hdirect : ∀ n t, SentDirectly s buf n t →
        t.status.reading = true ∨ t.status.exiting = true ∨ t.freed = true := fun n t hsent => by
      cases hsent <;> exact hs
    have hrun := Op.run_send s buf msg io
    generalize (Op.send buf msg io).run s = u at hrun ⊢
    cases hrun with
    | refused => exact hs
    | whole _ n t hsent => exact hdirect n t hsent
    | noMessage n t hsent => exact hdirect n t hsent
    | queued _ n t hsent =>
      exact hadd ((t.allocate.1.emit (.messageCreate msg)).queuePush (remainder buf msg n)).1 .evWrite
        (hdirect n t hsent)

private theorem processed_ops (s : Session) (halive : s.freed = false) (env : Env) :
    Ops (s.setEvent .evread s.evread.processActive).clearReading (s.processed env) := by
  have hclear : (s.setEvent .evread s.evread.processActive).clearReading.freed = false := by
    unfold clearReading
    split <;> exact halive
  unfold processed
  generalize (s.setEvent .evread s.evread.processActive).clearReading = u at hclear
  have hreceive : Ops u (u.receive env.read) := by
    cases env.read with
    | data bytes => exact .single (.buffer _) hclear
    | _ => exact .refl
  dsimp only
  split
  · exact hreceive.trans (process_ops _ env.process)
  · exact hreceive

private theorem channelOnRead_processed (s : Session) (env : Env)
    (hread : s.evread.results.read = true) :
    ∃ n, (s.setEvent .evread s.evread.processActive).channelOnRead s.evread.results env =
      (s.processed env).whenAlive fun u => u.afterProcess env n := by
  unfold channelOnRead processed
  rw [if_pos hread]
  cases env.running with
  | true => exact ⟨_, rfl⟩
  | false => exact ⟨_, rfl⟩

/-- After a successful read the session is registered for reading, unless it is about to
end. -/
theorem read_rearmed {s t : Session} {env : Env} (hs : Sound s) (hpos : s.Positive)
    (hfreed : s.freed = false) (hactive : s.evread.active = true)
    (hmode : SteadyMode s (.deliver .evread env))
    (ht : t = (s.setEvent .evread s.evread.processActive).channelOnRead s.evread.results env)
    (hread : s.evread.results.read = true) (hok : readError env.read = none)
    (halive : t.freed = false) (hexit : t.status.exiting = false) : t.status.reading = true := by
  have hreg := hs.registered hpos
  have hlinked : s.evread.linked = true := by simp [linked, hactive]
  obtain ⟨n, hrun⟩ := channelOnRead_processed s env hread
  rw [hrun] at ht
  have hops := processed_ops s hfreed env
  have hkept := hmode.2 hread
  generalize s.processed env = p at ht hops hkept
  cases hp : p.freed with
  | true =>
    rw [whenAlive_freed hp] at ht
    simp [ht, hp] at halive
  | false =>
    rw [whenAlive_alive hp, afterProcess, hok] at ht
    split at ht
    · -- the service asked for the end
      have hend := sessionShutdown_ends p.delPersistentRead (runCalls env.shutdown)
      rw [← ht] at hend
      simp [halive, hexit] at hend
    · dsimp only at ht
      split at ht
      · rename_i hpersist
        -- a persistent event was not touched
        have hbefore : (s.setEvent .evread s.evread.processActive).clearReading.status.reading = true := by
          have hon : (s.setEvent .evread s.evread.processActive).setting.persistMode = true :=
            hkept ▸ hpersist
          unfold clearReading
          rw [if_pos hon]
          exact hreg.reading.trans hlinked
        have hafter := hops.invariant
          (I := fun u => u.status.reading = true ∨ u.status.exiting = true ∨ u.freed = true)
          (.inl hbefore) fun op u hu hen => opRun_keepsReading op hen hu
        rw [ht] at hexit ⊢
        simpa [hexit, hp] using hafter
      · rw [ht] at hexit ⊢
        rw [sessionAddEvent_exiting] at hexit
        cases hreading : p.status.reading <;>
          simp [sessionAddEvent, addReadEvent, addWriteEvent, EvMask.evRead, hexit, hreading]

/-! ## Runs -/

theorem started_sound {reattach : Bool} {type : SessionType} {fd : Int} {env : Env}
    (htype : type ≠ .shared) : Sound (started reattach type fd env) := by
  refine (started_ops reattach type fd env).sound ⟨htype, fun _ => ?_⟩
  refine ⟨⟨rfl, rfl, rfl⟩, fun h => (by cases h), fun _ => rfl, ⟨rfl, rfl⟩, fun w hw => ?_⟩
  cases w <;> cases hw

theorem run_sound {iovMax : Nat} {reattach : Bool} {type : SessionType} {fd : Int} {env : Env}
    {is : List Input} {t : Session} (htype : type ≠ .shared)
    (hrun : Lib.GuardedRun (step iovMax) SteadyMode (started reattach type fd env) is t) :
    Sound t ∧ HasCallbacks t :=
  hrun.invariant (I := fun u => Sound u ∧ HasCallbacks u)
    ⟨started_sound htype, started_hasCallbacks reattach type fd env⟩
    fun _ _ _ hu hmode hstep =>
      ⟨step_sound hu.1 hu.2 hmode hstep, step_hasCallbacks hstep hu.2⟩

/-- In every run of a session in which its events are only added for proper descriptors that the
poller takes and its persist mode is steady, the status bits say after every step which events are linked in
the event set; a session that is gone has left none of them linked; and after a successful
read a session that is not about to end is polled for reading. -/
theorem flags_mirror_registrations (iovMax : Nat) (reattach : Bool) (type : SessionType) (fd : Int)
    (env : Env) (is : List Input) (t : Session) (htype : type ≠ .shared)
    (hrun : Lib.GuardedRun (step iovMax) SteadyMode (started reattach type fd env) is t)
    (hpos : t.Positive) :
    t.Mirrors ∧ (t.freed = true → t.Unlinked) ∧
      ∀ (e : Env) (u : Session), SteadyMode t (.deliver .evread e) → u.Positive →
        step iovMax t (.deliver .evread e) = some u → t.evread.results.read = true →
        readError e.read = none → u.freed = false → u.status.exiting = false →
        u.status.reading = true ∧ u.evread.inserted = true := by
  have hinv := run_sound htype hrun
  have hended : Ended t := hrun.invariant (I := Ended)
    ((started_ops reattach type fd env).ended (.of_alive rfl)) fun _ _ _ hu _ => step_ended hu
  have hreg := hinv.1.registered hpos
  refine ⟨hreg.toMirrors, fun hfreed => ?_, ?_⟩
  · -- all bits are cleared at the end, so that no event may be left
    have hstatus := hended hfreed
    have hread := hreg.reading
    have hwrite := hreg.writing
    have hkeep := hreg.keepaliving
    rw [hstatus] at hread hwrite hkeep
    exact ⟨hread.symm, hwrite.symm, hkeep.symm⟩
  · intro e u hmode hupos hstep hread hok halive hexit
    have hactive : t.evread.active = true := deliver_active hstep
    have hinstalled : t.evread.cb ≠ none :=
      hreg.installed .evread (by simp [event, linked, hactive])
    have hrun := deliver_read hinv.2 hinstalled hstep
    have hreading := read_rearmed hinv.1 hpos (step_alive hstep) hactive hmode hrun hread hok halive
      hexit
    have hu := (step_sound hinv.1 hinv.2 hmode hstep).registered hupos
    exact ⟨hreading, hu.polled (hu.reading ▸ hreading)⟩

/-- Two reads in persistent mode, the second of which meets the end of the stream; during
the first, `service.process` does `calls`. -/
def readTwice (calls : List Call) : List Input :=
  [.report .evread .evRead,
    .deliver .evread { read := .data [7], process := { calls := calls, rc := 1 } },
    .report .evread .evRead, .deliver .evread { read := .data [] }]

/-- The service sends an answer; the session ends without leaving an event behind. -/
theorem flags_mirror_registrations_answer :
    ∃ t, Lib.guardedExec (step 1024) SteadyMode
        (started false .accept 5 { start := { calls := [.setPersist 1] } })
        (readTwice [.send { buf := [8], io := .wrote 1 }]) = some t ∧
      t.freed = true ∧ t.Mirrors ∧ t.Unlinked := by
  have h := flags_mirror_registrations 1024 false .accept 5
    { start := { calls := [.setPersist 1] } } (readTwice [.send { buf := [8], io := .wrote 1 }]) _
    (by decide) (Lib.GuardedRun.of_exec rfl) (by decide)
  exact ⟨_, rfl, rfl, h.1, h.2.1 rfl⟩

/-- The service turns the persist mode off while its read event is registered with
`EV_PERSIST`: the bit is cleared at the next delivery, the event stays where it is, and
`session_end` frees it while it is with the poller. -/
theorem flags_mirror_registrations_mode_change_fails :
    ∃ t, Lib.Run (step 1024) (started false .accept 5 { start := { calls := [.setPersist 1] } })
        (readTwice [.setPersist 0]) t ∧ t.Positive ∧
      t.freed = true ∧ t.evread.inserted = true ∧ ¬ t.Mirrors ∧ ¬ t.Unlinked := by
  refine ⟨_, Lib.run_iff_exec.mpr rfl, by decide, rfl, rfl, fun h => ?_, fun h => ?_⟩
  · exact absurd h.reading (by decide)
  · exact absurd h.1 (by decide)

end Evlite.Session
