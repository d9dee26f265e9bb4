import Evlite.Event.Epoll
import Evlite.Lib.PartialMap
import Evlite.Lib.TransitionSystem
import Evlite.Session.Handlers

/-!
# Write Events on a Shared Descriptor

The Shared sessions of a transfer have one descriptor. For their read events
`session_add_event` keeps it away from the poller, which already watches it for the transfer;
for their write events it does not, though the poller keeps one write event for a descriptor
and `epoll_del` does not look whose it is.

## Main results

- `Awake`: every session that waits for a write event has it in the pair of its descriptor.
- `awake_iff_addsAlone`: a run stays there exactly if no session adds its write event while
  another one waits on the same descriptor.
- `awake_two_writers_fails`: otherwise a session goes on waiting for an event that nobody
  reports.
-/

namespace Evlite

open Lib

/-- The events the poller gets to see: those of the transfers, and the write events of the
sessions. -/
inductive PollEvent where
  | transfer (fd : Nat)
  | evwrite (s : Nat)
deriving DecidableEq, Repr

/-- The transfers of an event set, and the live sessions on their descriptors by address. -/
structure Transfers where
  poller : Epoller PollEvent
  transfer : Nat → Bool
  session : Nat → Option Session

namespace Transfers

def initial : Transfers where
  poller := .epollInit
  transfer _ := false
  session _ := none

/-! ## The event set between the sessions and the poller -/

/-- What `evsets_add` asks of the poller for an event. -/
def pollAdd (poller : Epoller PollEvent) (ev : PollEvent) (e : EventView Handler)
    (grows full : Bool) : Epoller PollEvent × Int :=
  if 0 < e.fd ∧ (e.events.read || e.events.write) ∧ !(e.active || e.inserted) then
    poller.epollAdd ev e.fd e.events grows full
  else (poller, 0)

/-- What `evsets_del` asks of the poller for an event. -/
def pollDel (poller : Epoller PollEvent) (e : EventView Handler) : Epoller PollEvent :=
  if e.inserted then (poller.epollDel e.fd e.events).1 else poller

def setSession (st : Transfers) (s : Nat) (session : Option Session) : Transfers :=
  { st with session := Function.update st.session s session }

/-- `session_add_event( session, EV_WRITE )`, for a session that is now as `session`. -/
def addEvent (st : Transfers) (s : Nat) (session : Session) (grows full : Bool) : Transfers :=
  if session.status.writing then st.setSession s (some session)
  else
    let evwrite := session.evwrite.eventSet session.fd .evWrite
    let (poller, rc) := pollAdd st.poller (.evwrite s) evwrite grows full
    -- where the poller does not take it, the event is not inserted
    let session := { session with poller := [rc == 0] }.sessionAddEvent .evWrite
    { st with poller := poller }.setSession s (some session)

/-- `evsets_del( sets, session->evwrite )`, if `SESSION_WRITING` is set. -/
def delEvwrite (st : Transfers) (session : Session) : Transfers :=
  if session.status.writing then { st with poller := pollDel st.poller session.evwrite } else st

/-- `event_active`, for an event the poller reports. -/
def activate (st : Transfers) (report : PollEvent × EvMask) : Transfers :=
  match report with
  | (.transfer _, _) => st
  | (.evwrite s, res) =>
    st.setSession s ((st.session s).map fun session =>
      { session with evwrite := session.evwrite.eventActive res })

/-! ## Runs -/

inductive Input where
  /-- `_listen_direct` adds the read event of a transfer. -/
  | listen (fd : Nat) (grows full : Bool)
  /-- `session_start` with type Shared. -/
  | start (s fd : Nat)
  /-- `session_add_event( session, EV_WRITE )` -/
  | addEvent (s : Nat) (grows full : Bool)
  /-- `session_del_event( session, EV_WRITE )` -/
  | delEvent (s : Nat)
  /-- `session_shutdown` of a session that has something left to send. -/
  | shutdown (s : Nat) (grows full : Bool)
  /-- `epoll_dispatch` is told that a descriptor is ready. -/
  | report (fd : Nat) (what : Ready)
  /-- `evtimer_dispatch` comes by the write event of a session. -/
  | expire (s : Nat)
  /-- `evsets_process_active` takes the write event of a session and calls `channel_on_write`,
  which first clears the flag. What it does then are inputs of their own. -/
  | deliver (s : Nat)
  /-- `session_end` -/
  | terminate (s : Nat)

def step (st : Transfers) : Input → Option Transfers
  | .listen fd grows full =>
    if 0 < fd ∧ st.transfer fd = false then
      let (poller, rc) := st.poller.epollAdd (.transfer fd) fd { read := true, persist := true }
        grows full
      some { st with
        poller := poller
        transfer := if rc = 0 then Function.update st.transfer fd true else st.transfer }
    else none
  | .start s fd =>
    if st.transfer fd = true ∧ st.session s = none then
      let session : Session := { fd := fd, type := .shared }
      some (st.setSession s (some (session.sessionAddEvent .evRead)))
    else none
  | .addEvent s grows full => (st.session s).map fun session => st.addEvent s session grows full
  | .delEvent s => (st.session s).map fun session =>
    (st.delEvwrite session).setSession s (some (session.sessionDelEvent .evWrite))
  | .shutdown s grows full => (st.session s).bind fun session =>
    if session.status.exiting then none
    else
      let session := { session with status := { session.status with exiting := true } }
      some (st.addEvent s (session.sessionDelEvent .evRead) grows full)
  | .report fd what => some ((st.poller.epollReport fd what).foldl activate st)
  | .expire s => (st.session s).bind fun session =>
    if session.evwrite.timer then
      some (st.setSession s (some { session with evwrite := session.evwrite.timerExpire }))
    else none
  | .deliver s => (st.session s).bind fun session =>
    if session.evwrite.active then
      let poller := if session.evwrite.events.persist then st.poller
        else pollDel st.poller session.evwrite
      let session := { session with evwrite := session.evwrite.processActive }
      some ({ st with poller := poller }.setSession s (some session.clearWriting))
    else none
  | .terminate s => (st.session s).map fun session => (st.delEvwrite session).setSession s none

/-! ## The sessions and the pairs -/

/-- Every session that waits for a write event has it in the pair of its descriptor. -/
def Awake (st : Transfers) : Prop :=
  ∀ s session, st.session s = some session → session.status.writing = true →
    (st.poller.evpairs session.fd.toNat).evwrite = some (.evwrite s)

/-- A session adds its write event only if no other session waits on its descriptor. -/
def AddsAlone (st : Transfers) : Input → Prop
  | .addEvent s _ _ | .shutdown s _ _ => ∀ session, st.session s = some session →
    session.status.writing = false → ∀ s' other, st.session s' = some other →
      other.fd = session.fd → other.status.writing = false
  | _ => True

/-- The write event of a session is where its flag says. -/
structure Settled (session : Session) (fd : Nat) : Prop where
  fd_eq : session.fd = fd
  waiting : session.status.writing = true → session.evwrite.inserted = true ∧
    session.evwrite.fd = fd ∧ session.evwrite.events = .evWrite
  idle : session.status.writing = false → session.evwrite.linked = false

/-- What holds in every run: the transfers are with the poller, and so are the sessions that
the pairs name. -/
structure Registered (st : Transfers) : Prop where
  room : 0 < st.poller.npairs
  transfer : ∀ fd, st.transfer fd = true → 0 < fd ∧ fd < st.poller.npairs ∧
    (st.poller.evpairs fd).evread.isSome = true ∧ (st.poller.interest fd).isSome = true
  session : ∀ s session, st.session s = some session →
    ∃ fd, st.transfer fd = true ∧ Settled session fd
  pair : ∀ fd ev, (st.poller.evpairs fd).evwrite = some ev → ∃ s session, ev = .evwrite s ∧
    st.session s = some session ∧ session.fd = fd ∧ session.status.writing = true
  evread : ∀ fd ev, (st.poller.evpairs fd).evread = some ev → ∃ fd', ev = .transfer fd'

theorem registered_initial : Registered initial where
  room := by decide
  transfer _ h := nomatch h
  session _ _ h := nomatch h
  pair _ _ h := nomatch h
  evread _ _ h := nomatch h

variable {st : Transfers} {s fd : Nat} {old new : Session}

theorem setSession_self (st : Transfers) (s : Nat) (session : Option Session) :
    (st.setSession s session).session s = session :=
  Function.update_self ..

theorem setSession_of_ne {s' : Nat} (hne : s' ≠ s) (session : Option Session) :
    (st.setSession s session).session s' = st.session s' :=
  Function.update_of_ne hne ..

/-- The transfers are with the poller whatever the write events are. -/
private theorem Registered.setEvwrite (h : Registered st) (fd : Nat) (ev : Option PollEvent) :
    let poller := st.poller.setEvwrite fd ev
    (∀ fd', st.transfer fd' = true → 0 < fd' ∧ fd' < poller.npairs ∧
      (poller.evpairs fd').evread.isSome = true ∧ (poller.interest fd').isSome = true) ∧
    ∀ fd' e, (poller.evpairs fd').evread = some e → ∃ fd'', e = .transfer fd'' := by
  refine ⟨fun fd' hfd' => ?_, fun fd' e he => ?_⟩
  · obtain ⟨hpos, hlt, hsome, hmask⟩ := h.transfer fd' hfd'
    exact ⟨hpos, hlt, (Epoller.setEvwrite_evread ..).symm ▸ hsome,
      Epoller.setEvwrite_interest hmask _⟩
  · exact h.evread fd' e ((Epoller.setEvwrite_evread ..).symm.trans he)

/-! ### What a session can do -/

/-- A session changes, and its registration does not. -/
theorem Registered.setSession (h : Registered st) (hs : st.session s = some old)
    (hfd : st.transfer fd = true) (hnew : Settled new fd) (heq : new.fd = old.fd)
    (hwriting : new.status.writing = old.status.writing) :
    Registered (st.setSession s (some new)) ∧ (Awake (st.setSession s (some new)) ↔ Awake st) := by
  -- the other sessions are as they were
  have hother : ∀ s' session, s' ≠ s → ((st.setSession s (some new)).session s' = some session ↔
      st.session s' = some session) := fun s' session hne => by
    rw [setSession_of_ne hne]
  have hself : (st.setSession s (some new)).session s = some new := setSession_self ..
  refine ⟨⟨h.room, h.transfer, fun s' session hs' => ?_, fun fd' ev hev => ?_, h.evread⟩, ?_, ?_⟩
  · by_cases hne : s' = s
    · subst hne
      obtain rfl := Option.some.inj (hself.symm.trans hs')
      exact ⟨fd, hfd, hnew⟩
    · exact h.session s' session ((hother s' session hne).mp hs')
  · obtain ⟨s', session, rfl, hs', hfd', hw⟩ := h.pair fd' ev hev
    by_cases hne : s' = s
    · subst hne
      obtain rfl := Option.some.inj (hs.symm.trans hs')
      exact ⟨s', new, rfl, hself, heq.trans hfd', hwriting.trans hw⟩
    · exact ⟨s', session, rfl, (hother s' session hne).mpr hs', hfd', hw⟩
  · intro hawake s' session hs' hw
    by_cases hne : s' = s
    · subst hne
      obtain rfl := Option.some.inj (hs.symm.trans hs')
      exact heq ▸ hawake s' new hself (hwriting.trans hw)
    · exact hawake s' session ((hother s' session hne).mpr hs') hw
  · intro hawake s' session hs' hw
    by_cases hne : s' = s
    · subst hne
      obtain rfl := Option.some.inj (hself.symm.trans hs')
      exact heq ▸ hawake s' old hs (hwriting.symm.trans hw)
    · exact hawake s' session ((hother s' session hne).mp hs') hw

/-- A session takes the pair of its descriptor. -/
theorem Registered.register (h : Registered st) (hs : st.session s = some old)
    (hfd : st.transfer fd = true) (hold : old.fd = fd) (hidle : old.status.writing = false)
    (hnew : Settled new fd) (hwriting : new.status.writing = true) :
    let st' := { st with poller := st.poller.setEvwrite fd (some (.evwrite s)) }.setSession s
      (some new)
    Registered st' ∧ (Awake st → (Awake st' ↔
      ∀ s' other, st.session s' = some other → other.fd = old.fd →
        other.status.writing = false)) := by
  intro st'
  have hother : ∀ s' session, s' ≠ s → (st'.session s' = some session ↔
      st.session s' = some session) := fun s' session hne => by
    rw [show st'.session s' = st.session s' from setSession_of_ne hne _]
  have hself : st'.session s = some new := setSession_self ..
  have hpair : (st'.poller.evpairs fd).evwrite = some (.evwrite s) := Epoller.setEvwrite_evwrite ..
  have hpairs : ∀ fd', fd' ≠ fd → st'.poller.evpairs fd' = st.poller.evpairs fd' :=
    fun _ hne => Epoller.setEvwrite_evpairs_of_ne hne _
  obtain ⟨htransfer, hevread⟩ := h.setEvwrite fd (some (.evwrite s))
  refine ⟨⟨h.room, htransfer, fun s' session hs' => ?_, fun fd' ev hev => ?_, hevread⟩,
    fun hawake => ⟨fun hawake' s' other hs' heq => ?_, fun halone s' session hs' hw => ?_⟩⟩
  · by_cases hne : s' = s
    · subst hne
      obtain rfl := Option.some.inj (hself.symm.trans hs')
      exact ⟨fd, hfd, hnew⟩
    · exact h.session s' session ((hother s' session hne).mp hs')
  · by_cases hne : fd' = fd
    · subst hne
      obtain rfl := Option.some.inj (hpair.symm.trans hev)
      exact ⟨s, new, rfl, hself, hnew.fd_eq, hwriting⟩
    · rw [hpairs fd' hne] at hev
      obtain ⟨s', session, rfl, hs', hfd', hw⟩ := h.pair fd' ev hev
      refine ⟨s', session, rfl, (hother s' session ?_).mpr hs', hfd', hw⟩
      rintro rfl
      obtain rfl := Option.some.inj (hs.symm.trans hs')
      exact nomatch hidle.symm.trans hw
  · -- another session that waits would have the pair as well
    refine Bool.eq_false_iff.mpr fun hw => ?_
    have hne : s' ≠ s := by
      rintro rfl
      obtain rfl := Option.some.inj (hs.symm.trans hs')
      exact nomatch hidle.symm.trans hw
    have hpair' := hawake' s' other ((hother s' other hne).mpr hs') hw
    rw [heq, hold, Int.toNat_natCast, hpair] at hpair'
    exact hne (PollEvent.evwrite.inj (Option.some.inj hpair')).symm
  · by_cases hne : s' = s
    · subst hne
      obtain rfl := Option.some.inj (hself.symm.trans hs')
      rw [hnew.fd_eq, Int.toNat_natCast]
      exact hpair
    · have hs₀ := (hother s' session hne).mp hs'
      obtain ⟨fd', -, hsettled⟩ := h.session s' session hs₀
      have hfd' : fd' ≠ fd := by
        rintro rfl
        exact nomatch hw.symm.trans (halone s' session hs₀ (hsettled.fd_eq.trans hold.symm))
      have hkept := hawake s' session hs₀ hw
      rw [hsettled.fd_eq, Int.toNat_natCast] at hkept ⊢
      rw [hpairs fd' hfd']
      exact hkept

/-- The pair of a descriptor loses its write event. -/
theorem Registered.unregister (h : Registered st) (hs : st.session s = some old)
    (hfd : st.transfer fd = true) (hold : old.fd = fd) (hwriting : old.status.writing = true)
    {new : Option Session} (hnew : ∀ session, new = some session →
      Settled session fd ∧ session.status.writing = false) :
    let st' := { st with poller := st.poller.setEvwrite fd none }.setSession s new
    Registered st' ∧ (Awake st → Awake st') := by
  intro st'
  have hother : ∀ s' session, s' ≠ s → (st'.session s' = some session ↔
      st.session s' = some session) := fun s' session hne => by
    rw [show st'.session s' = st.session s' from setSession_of_ne hne _]
  have hself : st'.session s = new := setSession_self ..
  have hpair : (st'.poller.evpairs fd).evwrite = none := Epoller.setEvwrite_evwrite ..
  have hpairs : ∀ fd', fd' ≠ fd → st'.poller.evpairs fd' = st.poller.evpairs fd' :=
    fun _ hne => Epoller.setEvwrite_evpairs_of_ne hne _
  obtain ⟨htransfer, hevread⟩ := h.setEvwrite fd none
  refine ⟨⟨h.room, htransfer, fun s' session hs' => ?_, fun fd' ev hev => ?_, hevread⟩,
    fun hawake s' session hs' hw => ?_⟩
  · by_cases hne : s' = s
    · subst hne
      exact ⟨fd, hfd, (hnew session (hself.symm.trans hs')).1⟩
    · exact h.session s' session ((hother s' session hne).mp hs')
  · have hne : fd' ≠ fd := by
      rintro rfl
      exact nomatch hpair.symm.trans hev
    rw [hpairs fd' hne] at hev
    obtain ⟨s', session, rfl, hs', hfd', hw⟩ := h.pair fd' ev hev
    refine ⟨s', session, rfl, (hother s' session ?_).mpr hs', hfd', hw⟩
    rintro rfl
    obtain rfl := Option.some.inj (hs.symm.trans hs')
    exact hne (Int.ofNat_inj.mp (hfd'.symm.trans hold))
  · have hne : s' ≠ s := by
      rintro rfl
      exact nomatch hw.symm.trans (hnew session (hself.symm.trans hs')).2
    have hs₀ := (hother s' session hne).mp hs'
    obtain ⟨fd', -, hsettled⟩ := h.session s' session hs₀
    have hkept := hawake s' session hs₀ hw
    rw [hsettled.fd_eq, Int.toNat_natCast] at hkept ⊢
    -- two waiting sessions of one descriptor would be one event
    have hfd' : fd' ≠ fd := by
      rintro rfl
      have hmine := hawake s old hs hwriting
      rw [hold, Int.toNat_natCast, hkept] at hmine
      exact hne (PollEvent.evwrite.inj (Option.some.inj hmine))
    rw [hpairs fd' hfd']
    exact hkept

/-! ### The operations -/

/-- The session with the write event added. -/
private theorem settled_addEvent (h : Settled old fd) (hpos : 0 < fd)
    (hidle : old.status.writing = false) :
    let new := { old with poller := [true] }.sessionAddEvent .evWrite
    Settled new fd ∧ new.status.writing = true := by
  intro new
  have hadd : new = { old with poller := [true] }.addWriteEvent .evWrite := by
    simp [new, Session.sessionAddEvent, Session.addReadEvent, EvMask.evWrite]
  have hlinked := h.idle hidle
  simp only [EventView.linked, Bool.or_eq_false_iff] at hlinked
  have hfd : 0 < old.fd := by
    rw [h.fd_eq]
    exact Int.natCast_pos.mpr hpos
  rw [hadd, Session.addWriteEvent, if_pos (by rw [hidle]; rfl)]
  refine ⟨⟨h.fd_eq, fun _ => ⟨?_, ?_, ?_⟩, fun hw => by cases hw⟩, rfl⟩
  · refine EventView.inserted_evsetsAdd _ _ hfd (by rfl) fun hactive => ?_
    exact absurd (hlinked.2.symm.trans hactive) Bool.false_ne_true
  · rw [EventView.evsetsAdd_fd]
    exact h.fd_eq
  · rw [EventView.evsetsAdd_events]
    rfl

/-- `session_add_event( session, EV_WRITE )`: the session gets its event into the pair, which
keeps the others awake exactly if none of them waits there. -/
theorem Registered.addEvent (h : Registered st) (hs : st.session s = some old)
    (hfd : st.transfer fd = true) (hold : old.fd = fd) (hnew : Settled new fd)
    (hwriting : new.status.writing = old.status.writing) (grows full : Bool) :
    Registered (st.addEvent s new grows full) ∧ (Awake st → (Awake (st.addEvent s new grows full) ↔
      (old.status.writing = false → ∀ s' other, st.session s' = some other →
        other.fd = old.fd → other.status.writing = false))) := by
  cases hw : old.status.writing with
  | true =>
    rw [Transfers.addEvent, if_pos (hwriting.trans hw)]
    obtain ⟨hregistered, hiff⟩ := h.setSession hs hfd hnew (hnew.fd_eq.trans hold.symm) hwriting
    exact ⟨hregistered, fun hawake => ⟨fun _ hidle => (nomatch hidle), fun _ => hiff.mpr hawake⟩⟩
  | false =>
    obtain ⟨hpos, hlt, hread, hmask⟩ := h.transfer fd hfd
    obtain ⟨hadded, hwaiting⟩ := settled_addEvent hnew hpos (hwriting.trans hw)
    obtain ⟨hregistered, hiff⟩ := h.register hs hfd hold hw hadded hwaiting
    have hlinked := hnew.idle (hwriting.trans hw)
    simp only [EventView.linked, Bool.or_eq_false_iff] at hlinked
    -- the descriptor is with the poller, so that it takes the event
    have hpoll : pollAdd st.poller (.evwrite s) (new.evwrite.eventSet new.fd .evWrite) grows full =
        (st.poller.setEvwrite fd (some (.evwrite s)), 0) := by
      rw [pollAdd, if_pos]
      · rw [EventView.eventSet_fd, EventView.eventSet_events, hnew.fd_eq]
        exact Epoller.epollAdd_write hlt hread hmask _ grows full
      · refine ⟨?_, rfl, ?_⟩
        · rw [EventView.eventSet_fd, hnew.fd_eq]
          exact Int.natCast_pos.mpr hpos
        · simp [EventView.eventSet, hlinked]
    have heq : st.addEvent s new grows full =
        { st with poller := st.poller.setEvwrite fd (some (.evwrite s)) }.setSession s
          (some ({ new with poller := [true] }.sessionAddEvent .evWrite)) := by
      simp only [Transfers.addEvent, hwriting, hw, hpoll, Bool.false_eq_true, if_false, BEq.rfl]
    rw [heq]
    exact ⟨hregistered, fun hawake => (hiff hawake).trans ⟨fun hall _ => hall, fun hall => hall rfl⟩⟩

/-- `evsets_del` of the write event empties the pair of the descriptor. -/
theorem Registered.delEvwrite_eq (h : Registered st) (hfd : st.transfer fd = true)
    (hold : Settled old fd) (hw : old.status.writing = true) :
    pollDel st.poller old.evwrite = st.poller.setEvwrite fd none := by
  obtain ⟨-, hlt, hread, hmask⟩ := h.transfer fd hfd
  obtain ⟨hinserted, hevfd, hevents⟩ := hold.waiting hw
  rw [pollDel, if_pos hinserted, hevfd, hevents, Epoller.epollDel_write hlt hread hmask]

/-- A session without a registration leaves. -/
theorem Registered.leave (h : Registered st) (hs : st.session s = some old)
    (hw : old.status.writing = false) :
    Registered (st.setSession s none) ∧ (Awake st → Awake (st.setSession s none)) := by
  have hother : ∀ s' session, (st.setSession s none).session s' = some session →
      st.session s' = some session :=
    fun s' session hs' => (of_update_none hs').2
  refine ⟨⟨h.room, h.transfer, fun s' session hs' => h.session s' session (hother s' session hs'),
    fun fd' ev hev => ?_, h.evread⟩, fun hawake s' session hs' => hawake s' session
      (hother s' session hs')⟩
  obtain ⟨s', session, rfl, hs', hrest⟩ := h.pair fd' ev hev
  refine ⟨s', session, rfl, (setSession_of_ne ?_ _).trans hs', hrest⟩
  rintro rfl
  obtain rfl := Option.some.inj (hs.symm.trans hs')
  exact nomatch hw.symm.trans hrest.2

/-- `evsets_del` of the write event where the flag says that it is added: the session waits no
longer, or has ended. -/
theorem Registered.delEvwrite (h : Registered st) (hs : st.session s = some old)
    (hfd : st.transfer fd = true) (hold : Settled old fd) (new : Option Session)
    (hnew : ∀ later, new = some later → Settled later fd ∧ later.status.writing = false) :
    Registered ((st.delEvwrite old).setSession s new) ∧
      (Awake st → Awake ((st.delEvwrite old).setSession s new)) := by
  cases hw : old.status.writing with
  | true =>
    rw [Transfers.delEvwrite, if_pos hw, h.delEvwrite_eq hfd hold hw]
    exact h.unregister hs hfd hold.fd_eq hw hnew
  | false =>
    -- without the flag nothing is with the poller
    rw [Transfers.delEvwrite, if_neg (Bool.eq_false_iff.mp hw)]
    cases new with
    | none => exact h.leave hs hw
    | some later =>
      obtain ⟨hsettled, hidle⟩ := hnew later rfl
      obtain ⟨hregistered, hiff⟩ := h.setSession hs hfd hsettled
        (hsettled.fd_eq.trans hold.fd_eq.symm) (hidle.trans hw.symm)
      exact ⟨hregistered, hiff.mpr⟩

/-- A new session has nothing registered. -/
theorem Registered.start (h : Registered st) (hs : st.session s = none)
    (hfd : st.transfer fd = true) (hnew : Settled new fd) (hw : new.status.writing = false) :
    Registered (st.setSession s (some new)) ∧
      (Awake st → Awake (st.setSession s (some new))) := by
  have hcases : ∀ s' session, (st.setSession s (some new)).session s' = some session →
      session = new ∨ st.session s' = some session := by
    intro s' session hs'
    rcases update_eq_some hs' with ⟨-, heq⟩ | ⟨-, hs₀⟩
    · exact .inl (Option.some.inj heq).symm
    · exact .inr hs₀
  refine ⟨⟨h.room, h.transfer, fun s' session hs' => ?_, fun fd' ev hev => ?_, h.evread⟩,
    fun hawake s' session hs' hwaits => ?_⟩
  · rcases hcases s' session hs' with rfl | hs₀
    · exact ⟨fd, hfd, hnew⟩
    · exact h.session s' session hs₀
  · obtain ⟨s', session, rfl, hs', hrest⟩ := h.pair fd' ev hev
    refine ⟨s', session, rfl, (setSession_of_ne ?_ _).trans hs', hrest⟩
    rintro rfl
    exact nomatch hs.symm.trans hs'
  · rcases hcases s' session hs' with rfl | hs₀
    · exact nomatch hw.symm.trans hwaits
    · exact hawake s' session hs₀ hwaits

/-- A new transfer leaves the write events alone. -/
theorem Registered.listen (h : Registered st) (hfd : st.transfer fd = false) (hpos : 0 < fd)
    (events : EvMask) (hread : events.read = true) (hwrite : events.write = false)
    (grows full : Bool) :
    let answer := st.poller.epollAdd (.transfer fd) fd events grows full
    let st' := { st with
      poller := answer.1
      transfer := if answer.2 = 0 then Function.update st.transfer fd true else st.transfer }
    Registered st' ∧ (Awake st → Awake st') := by
  intro answer st'
  obtain ⟨hkeeps, hadded⟩ := Epoller.epollAdd_keeps st.poller (.transfer fd) fd hread hwrite grows full
  -- a descriptor that has a driver is not listened to again
  have hne : ∀ fd', st.transfer fd' = true → fd' ≠ fd := by
    rintro fd' hfd' rfl
    exact nomatch hfd.symm.trans hfd'
  refine ⟨⟨Nat.lt_of_lt_of_le h.room hkeeps.npairs, fun fd' hfd' => ?_, fun s session hs => ?_,
    fun fd' ev hev => h.pair fd' ev (hkeeps.evwrite fd' ev hev), fun fd' ev hev => ?_⟩,
    fun hawake s session hs hw => ?_⟩
  · have hcases : st.transfer fd' = true ∨ (fd' = fd ∧ answer.2 = 0) := by
      change (if answer.2 = 0 then Function.update st.transfer fd true else st.transfer) fd' = true
        at hfd'
      split at hfd'
      · rename_i hrc
        by_cases hself : fd' = fd
        · exact .inr ⟨hself, hrc⟩
        · exact .inl ((Function.update_of_ne hself ..).symm.trans hfd')
      · exact .inl hfd'
    rcases hcases with hfd' | ⟨rfl, hrc⟩
    · obtain ⟨hpos', hlt, hsome, hmask⟩ := h.transfer fd' hfd'
      refine ⟨hpos', Nat.lt_of_lt_of_le hlt hkeeps.npairs, ?_, ?_⟩
      · exact (hkeeps.evpairs fd' (hne fd' hfd') hlt).symm ▸ hsome
      · exact (hkeeps.interest fd' (hne fd' hfd')).symm ▸ hmask
    · exact ⟨hpos, hadded h.room hrc⟩
  · obtain ⟨fd', hfd', hsettled⟩ := h.session s session hs
    refine ⟨fd', ?_, hsettled⟩
    change (if answer.2 = 0 then Function.update st.transfer fd true else st.transfer) fd' = true
    split
    · exact (Function.update_of_ne (hne fd' hfd') ..).trans hfd'
    · exact hfd'
  · rcases hkeeps.evread fd' ev hev with hold | rfl
    · exact h.evread fd' ev hold
    · exact ⟨fd, rfl⟩
  · obtain ⟨fd', hfd', hsettled⟩ := h.session s session hs
    have hkept := hawake s session hs hw
    rw [hsettled.fd_eq, Int.toNat_natCast] at hkept ⊢
    rw [show st'.poller.evpairs fd' = st.poller.evpairs fd' from
      hkeeps.evpairs fd' (hne fd' hfd') (h.transfer fd' hfd').2.1]
    exact hkept

/-! ### Activations -/

/-- An event of a waiting session is activated or expires. -/
private theorem settled_of_event (h : Settled old fd) {e : EventView Handler}
    (hw : old.status.writing = true) (hinserted : e.inserted = old.evwrite.inserted)
    (hevfd : e.fd = old.evwrite.fd) (hevents : e.events = old.evwrite.events) :
    Settled { old with evwrite := e } fd where
  fd_eq := h.fd_eq
  waiting _ := by
    obtain ⟨hi, hf, he⟩ := h.waiting hw
    exact ⟨hinserted.trans hi, hevfd.trans hf, hevents.trans he⟩
  idle hidle := nomatch hw.symm.trans hidle

/-- `event_active` for what the pair of a descriptor holds. -/
theorem Registered.activate (h : Registered st) {report : PollEvent × EvMask}
    (hreport : (∃ fd', report.1 = .transfer fd') ∨
      (st.poller.evpairs fd).evwrite = some report.1) :
    Registered (st.activate report) ∧ (Awake (st.activate report) ↔ Awake st) := by
  obtain ⟨ev, res⟩ := report
  cases ev with
  | transfer fd' => exact ⟨h, Iff.rfl⟩
  | evwrite s =>
    rcases hreport with ⟨fd', hfd'⟩ | hpair
    · exact nomatch hfd'
    obtain ⟨s', session, hs', hs, hfd, hw⟩ := h.pair fd _ hpair
    obtain rfl := PollEvent.evwrite.inj hs'
    obtain ⟨fd', hfd', hsettled⟩ := h.session s session hs
    have heq : st.activate (.evwrite s, res) = st.setSession s
        (some { session with evwrite := session.evwrite.eventActive res }) := by
      simp only [Transfers.activate, hs, Option.map_some]
    rw [heq]
    exact h.setSession hs hfd' (settled_of_event hsettled hw (EventView.eventActive_inserted _ _)
      (EventView.eventActive_fd _ _) (EventView.eventActive_events _ _)) rfl rfl

/-- `epoll_dispatch` for one descriptor. -/
theorem Registered.report (h : Registered st) (reports : List (PollEvent × EvMask))
    (hreports : ∀ report ∈ reports, (∃ fd', report.1 = .transfer fd') ∨
      (st.poller.evpairs fd).evwrite = some report.1) :
    Registered (reports.foldl Transfers.activate st) ∧
      (Awake (reports.foldl Transfers.activate st) ↔ Awake st) := by
  induction reports generalizing st with
  | nil => exact ⟨h, Iff.rfl⟩
  | cons report reports ih =>
    obtain ⟨hregistered, hiff⟩ := h.activate (hreports report List.mem_cons_self)
    have hpoller : (st.activate report).poller = st.poller := by
      obtain ⟨ev, res⟩ := report
      cases ev <;> rfl
    obtain ⟨hregistered', hiff'⟩ := ih hregistered fun report' hmem => by
      rw [hpoller]
      exact hreports report' (List.mem_cons_of_mem report hmem)
    exact ⟨hregistered', hiff'.trans hiff⟩

/-- The write event of a session that is reported is active afterwards. -/
theorem active_of_report (reports : List (PollEvent × EvMask)) (session : Session) {res : EvMask}
    (hs : st.session s = some session)
    (hreport : (.evwrite s, res) ∈ reports ∨ session.evwrite.active = true) :
    ∃ later, (reports.foldl Transfers.activate st).session s = some later ∧
      later.evwrite.active = true := by
  induction reports generalizing st session with
  | nil => exact ⟨session, hs, hreport.resolve_left List.not_mem_nil⟩
  | cons report reports ih =>
    -- a further report leaves the event active
    have hactive : ∀ res', (session.evwrite.eventActive res').active = true := by
      intro res'
      unfold EventView.eventActive
      split
      · assumption
      · rfl
    obtain ⟨ev, res'⟩ := report
    cases ev with
    | transfer fd' =>
      refine ih session hs (hreport.imp_left fun hmem => ?_)
      exact (List.mem_cons.mp hmem).resolve_left (fun heq => nomatch heq)
    | evwrite s' =>
      by_cases hne : s = s'
      · subst hne
        refine ih { session with evwrite := session.evwrite.eventActive res' } ?_
          (.inr (hactive res'))
        simp only [Transfers.activate, setSession, hs, Option.map_some, Function.update_self]
      · refine ih session ?_ (hreport.imp_left fun hmem => ?_)
        · exact (Function.update_of_ne hne ..).trans hs
        · rcases List.mem_cons.mp hmem with heq | hmem
          · exact absurd (PollEvent.evwrite.inj (Prod.mk.inj heq).1) hne
          · exact hmem

/-- Only a session that waits has its write event in one of the lists. -/
private theorem Settled.writing_of_linked (h : Settled old fd)
    (hlinked : old.evwrite.linked = true) : old.status.writing = true := by
  refine (Bool.not_eq_false _).mp fun hw => ?_
  exact nomatch (h.idle hw).symm.trans hlinked

/-- `session_del_event( session, EV_WRITE )` -/
private theorem settled_delWrite (h : Settled old fd) :
    Settled (old.sessionDelEvent .evWrite) fd ∧
      (old.sessionDelEvent .evWrite).status.writing = false := by
  have hdel : old.sessionDelEvent .evWrite = old.delWriteEvent .evWrite := by
    simp [Session.sessionDelEvent, Session.delReadEvent, EvMask.evWrite]
  rw [hdel, Session.delWriteEvent]
  split
  · exact ⟨⟨h.fd_eq, fun hw => absurd hw Bool.false_ne_true, fun _ => rfl⟩, rfl⟩
  · rename_i hidle
    exact ⟨h, by simpa [EvMask.evWrite] using hidle⟩

/-- `session_del_event( session, EV_READ )` leaves the write event alone. -/
private theorem settled_delRead (h : Settled old fd) :
    Settled (old.sessionDelEvent .evRead) fd ∧
      (old.sessionDelEvent .evRead).status.writing = old.status.writing := by
  have hdel : old.sessionDelEvent .evRead = old.delReadEvent .evRead := by
    simp [Session.sessionDelEvent, Session.delWriteEvent, EvMask.evRead]
  rw [hdel, Session.delReadEvent]
  split
  · exact ⟨⟨h.fd_eq, h.waiting, h.idle⟩, rfl⟩
  · exact ⟨h, rfl⟩

/-- `evsets_process_active` and the first line of `channel_on_write` undo the registration, as
the write event is not persistent. -/
private theorem settled_deliver (h : Settled old fd) (hw : old.status.writing = true) :
    old.evwrite.events.persist = false ∧
      Settled ({ old with evwrite := old.evwrite.processActive } : Session).clearWriting fd := by
  have honeshot : old.evwrite.events.persist = false := by
    rw [(h.waiting hw).2.2]
    rfl
  exact ⟨honeshot, h.fd_eq, fun hw => (nomatch hw),
    fun _ => EventView.processActive_linked_of_oneshot _ honeshot⟩

/-! ## Steps and runs -/

/-- One step: the sessions stay registered, and they stay awake exactly if the step adds its
write event alone. -/
theorem Registered.step (h : Registered st) {i : Input} {st' : Transfers}
    (hstep : Transfers.step st i = some st') :
    Registered st' ∧ (Awake st → (Awake st' ↔ AddsAlone st i)) := by
  cases i with
  | listen fd grows full =>
    simp only [Transfers.step] at hstep
    split at hstep
    · rename_i hguard
      obtain rfl := Option.some.inj hstep
      obtain ⟨hregistered, hawake⟩ := h.listen hguard.2 hguard.1
        { read := true, persist := true } rfl rfl grows full
      exact ⟨hregistered, fun hst => iff_of_true (hawake hst) trivial⟩
    · cases hstep
  | start s fd =>
    simp only [Transfers.step] at hstep
    split at hstep
    · rename_i hguard
      obtain rfl := Option.some.inj hstep
      have hnew : Settled (({ fd := fd, type := .shared } : Session).sessionAddEvent .evRead) fd :=
        ⟨rfl, fun hw => absurd hw Bool.false_ne_true, fun _ => rfl⟩
      obtain ⟨hregistered, hawake⟩ := h.start hguard.2 hguard.1 hnew rfl
      exact ⟨hregistered, fun hst => iff_of_true (hawake hst) trivial⟩
    · cases hstep
  | addEvent s grows full =>
    obtain ⟨session, hs, rfl⟩ := Option.map_eq_some_iff.mp hstep
    obtain ⟨fd, hfd, hsettled⟩ := h.session s session hs
    obtain ⟨hregistered, hiff⟩ := h.addEvent hs hfd hsettled.fd_eq hsettled rfl grows full
    refine ⟨hregistered, fun hawake => (hiff hawake).trans ⟨fun hall session' hs' => ?_,
      fun hall => hall session hs⟩⟩
    obtain rfl := Option.some.inj (hs.symm.trans hs')
    exact hall
  | delEvent s =>
    obtain ⟨session, hs, rfl⟩ := Option.map_eq_some_iff.mp hstep
    obtain ⟨fd, hfd, hsettled⟩ := h.session s session hs
    obtain ⟨hregistered, hawake⟩ := h.delEvwrite hs hfd hsettled
      (some (session.sessionDelEvent .evWrite))
      fun later heq => Option.some.inj heq ▸ settled_delWrite hsettled
    exact ⟨hregistered, fun hst => iff_of_true (hawake hst) trivial⟩
  | shutdown s grows full =>
    obtain ⟨session, hs, hstep⟩ := Option.bind_eq_some_iff.mp hstep
    obtain ⟨fd, hfd, hsettled⟩ := h.session s session hs
    split at hstep
    · cases hstep
    obtain rfl := Option.some.inj hstep
    have hexiting : Settled { session with status := { session.status with exiting := true } } fd :=
      ⟨hsettled.fd_eq, hsettled.waiting, hsettled.idle⟩
    obtain ⟨hdel, hwriting⟩ := settled_delRead hexiting
    obtain ⟨hregistered, hiff⟩ := h.addEvent hs hfd hsettled.fd_eq hdel hwriting grows full
    refine ⟨hregistered, fun hawake => (hiff hawake).trans ⟨fun hall session' hs' => ?_,
      fun hall => hall session hs⟩⟩
    obtain rfl := Option.some.inj (hs.symm.trans hs')
    exact hall
  | report fd what =>
    obtain rfl := Option.some.inj hstep
    have hreports : ∀ report ∈ st.poller.epollReport fd what, (∃ fd', report.1 = .transfer fd') ∨
        (st.poller.evpairs fd).evwrite = some report.1 :=
      fun report hmem => (Epoller.mem_epollReport hmem).imp_left fun hread => h.evread fd _ hread
    obtain ⟨hregistered, hiff⟩ := h.report _ hreports
    exact ⟨hregistered, fun hst => iff_of_true (hiff.mpr hst) trivial⟩
  | expire s =>
    obtain ⟨session, hs, hstep⟩ := Option.bind_eq_some_iff.mp hstep
    obtain ⟨fd, hfd, hsettled⟩ := h.session s session hs
    split at hstep
    · rename_i htimer
      obtain rfl := Option.some.inj hstep
      have hw := hsettled.writing_of_linked (by simp [EventView.linked, htimer])
      obtain ⟨hregistered, hiff⟩ := h.setSession hs hfd (settled_of_event hsettled hw
        (EventView.timerExpire_inserted _) (EventView.eventActive_fd _ _) (EventView.timerExpire_events _))
        rfl rfl
      exact ⟨hregistered, fun hst => iff_of_true (hiff.mpr hst) trivial⟩
    · cases hstep
  | deliver s =>
    obtain ⟨session, hs, hstep⟩ := Option.bind_eq_some_iff.mp hstep
    obtain ⟨fd, hfd, hsettled⟩ := h.session s session hs
    split at hstep
    · rename_i hactive
      obtain rfl := Option.some.inj hstep
      have hw := hsettled.writing_of_linked (by simp [EventView.linked, hactive])
      obtain ⟨honeshot, hnew⟩ := settled_deliver hsettled hw
      obtain ⟨hregistered, hawake⟩ := h.delEvwrite hs hfd hsettled
        (some ({ session with evwrite := session.evwrite.processActive } : Session).clearWriting)
        fun later heq => Option.some.inj heq ▸ ⟨hnew, rfl⟩
      rw [Transfers.delEvwrite, if_pos hw] at hregistered hawake
      rw [honeshot, if_neg Bool.false_ne_true]
      exact ⟨hregistered, fun hst => iff_of_true (hawake hst) trivial⟩
    · cases hstep
  | terminate s =>
    obtain ⟨session, hs, rfl⟩ := Option.map_eq_some_iff.mp hstep
    obtain ⟨fd, hfd, hsettled⟩ := h.session s session hs
    obtain ⟨hregistered, hawake⟩ := h.delEvwrite hs hfd hsettled none fun _ heq => by cases heq
    exact ⟨hregistered, fun hst => iff_of_true (hawake hst) trivial⟩

theorem registered_of_run {inputs : List Input} (hrun : Run Transfers.step initial inputs st) :
    Registered st :=
  hrun.invariant registered_initial fun _ _ _ h _ hstep => (h.step hstep).1

/-- A run stays in states where every waiting session has its write event in the pair of its
descriptor exactly if no session adds its write event while another one waits there; and then
a report of `EPOLLOUT` activates the write event of the session that waits. -/
theorem awake_iff_addsAlone {inputs : List Input} (hrun : Run Transfers.step initial inputs st) :
    ((∀ js u, js <+: inputs → Run Transfers.step initial js u → Awake u) ↔
      GuardedRun Transfers.step AddsAlone initial inputs st) ∧
    (Awake st → ∀ s session, st.session s = some session → session.status.writing = true →
      ∀ what : Ready, what.writable = true → ∃ st' later,
        Transfers.step st (.report session.fd.toNat what) = some st' ∧
        st'.session s = some later ∧ later.evwrite.active = true) := by
  refine ⟨states_all_iff_guarded hrun (fun _ _ hs => nomatch hs) registered_initial
    (fun t i u h hawake hstep => (h.step hstep).2 hawake)
    (fun t i u h _ _ hstep => (h.step hstep).1), fun hawake s session hs hw what hwhat => ?_⟩
  have h := registered_of_run hrun
  obtain ⟨fd, hfd, hsettled⟩ := h.session s session hs
  have hpair := hawake s session hs hw
  rw [hsettled.fd_eq, Int.toNat_natCast] at hpair ⊢
  have hmem := Epoller.epollReport_write (h.transfer fd hfd).2.1 hwhat hpair
  obtain ⟨later, hlater, hactive⟩ := active_of_report _ session hs (.inl hmem)
  exact ⟨_, later, rfl, hlater, hactive⟩

/-- Two sessions on the descriptor 5 that wait one after the other. -/
theorem awake_iff_addsAlone_in_turn : ∃ st,
    Run Transfers.step initial [.listen 5 true false, .start 1 5, .start 2 5,
      .addEvent 1 true false, .report 5 { writable := true }, .deliver 1,
      .addEvent 2 true false] st ∧ ∃ st' later,
    Transfers.step st (.report 5 { writable := true }) = some st' ∧
    st'.session 2 = some later ∧ later.evwrite.active = true := by
  have hexec : exec Transfers.step initial [.listen 5 true false, .start 1 5, .start 2 5,
      .addEvent 1 true false, .report 5 { writable := true }, .deliver 1,
      .addEvent 2 true false] = some _ := rfl
  have hrun := run_iff_exec.mpr hexec
  refine ⟨_, hrun, (awake_iff_addsAlone hrun).2 ?_ 2 _ rfl rfl { writable := true } rfl⟩
  -- only the second session waits in the end
  intro s session hs hw
  match s with
  | 0 => exact nomatch hs
  | 1 =>
    obtain rfl := Option.some.inj hs
    exact nomatch hw
  | 2 =>
    obtain rfl := Option.some.inj hs
    rfl
  | _ + 3 => exact nomatch hs

/-- Two sessions on the descriptor 5 that wait at the same time. The event of the second one
takes the place of the first one's, and leaves the pair empty when it is reported: no report
reaches the first session any more. -/
theorem awake_two_writers_fails : ∃ st session,
    Run Transfers.step initial [.listen 5 true false, .start 1 5, .start 2 5,
      .addEvent 1 true false, .addEvent 2 true false, .report 5 { writable := true },
      .deliver 2] st ∧
    st.session 1 = some session ∧ session.status.writing = true ∧ ¬ Awake st ∧
    ∀ what, Transfers.step st (.report 5 what) = some st := by
  have hexec : exec Transfers.step initial [.listen 5 true false, .start 1 5, .start 2 5,
      .addEvent 1 true false, .addEvent 2 true false, .report 5 { writable := true },
      .deliver 2] = some _ := rfl
  refine ⟨_, _, run_iff_exec.mpr hexec, rfl, rfl, fun hawake => ?_, fun what => ?_⟩
  · exact nomatch hawake 1 _ rfl rfl
  · obtain ⟨failed, readable, writable⟩ := what
    cases failed <;> cases readable <;> cases writable <;> rfl

end Transfers

end Evlite
