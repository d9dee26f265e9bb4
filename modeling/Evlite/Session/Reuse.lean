import Evlite.Session.Lifecycle
import Evlite.Session.Manager

/-!
# Sessions that are Used Again

With `USE_REUSESESSION`, `channel_shutdown` does not free a session: `session_end` resets it,
`session_manager_recycle` appends it to the recycle list of its manager, and
`session_manager_alloc` takes it from there. But `session_manager_remove` has set
`session->manager` to `NULL` by then, and the manager that `channel_shutdown` passes on is the
one it reads from the session.

The state is that of one manager and its sessions, which are known by their addresses. What a
session does between its start and its end is an input, and so is what `service.shutdown` leaves
of it. `created` is not part of the source: it remembers the sessions that were allocated.

## Main results

- `Good.ended`, `Pending.recycle`: a session that has ended is like a new one and in no place,
  and the recycle list of its manager would be the right one.
- `Pending.recycle_null`: the list it is appended to is that of `NULL`.
- `reuse_good_iff`: so all is well in a run if and only if no session is ever shut down.
-/

namespace Evlite

open Lib Session

/-! ## Resetting a session -/

namespace Session

/-- `_new_session`. The other fields are those of a structure that was never written. -/
def newSession : Session := { fd := 0 }

/-- `_reset_session`. `event_reset` takes an event out of its event set and initialises it. -/
def resetSession (s : Session) : Session :=
  { s with
    status := {}, msgoffset := 0, setting := {}, evread := {}, evwrite := {}, evkeepalive := {}
    inbuffer := [], sendqueue := [] }

/-- `session_end( session, id, 1 )` -/
def sessionEndRecycle (s : Session) : Session :=
  let s := { s.emits (s.sendqueue.flatMap lostEffects) with sendqueue := [] }
  s.sessionStop.resetSession

/-- Nothing is left of the connection. -/
structure LikeNew (s : Session) : Prop where
  sendqueue : s.sendqueue = newSession.sendqueue
  inbuffer : s.inbuffer = newSession.inbuffer
  msgoffset : s.msgoffset = newSession.msgoffset
  status : s.status = newSession.status
  setting : s.setting = newSession.setting
  tasklist : s.tasklist = newSession.tasklist
  evread : s.evread.linked = false
  evwrite : s.evwrite.linked = false
  evkeepalive : s.evkeepalive.linked = false

theorem newSession_likeNew : newSession.LikeNew := by
  constructor <;> rfl

/-- Whatever a session was used for, nothing is left of it. -/
theorem sessionEndRecycle_likeNew (s : Session) : s.sessionEndRecycle.LikeNew := by
  unfold sessionEndRecycle
  dsimp only
  rw [sessionStop_eq]
  constructor <;> rfl

end Session

/-! ## The manager and its sessions -/

/-- A manager with its recycle list, and all sessions. -/
structure ReusePool where
  manager : SessionManager
  recyclesize : BitVec 32 := 0
  recyclelist : List (BitVec 64) := []
  /-- `session->id` -/
  id : BitVec 64 → BitVec 64
  /-- Whether `session->manager` is this manager, or `NULL`. -/
  bound : BitVec 64 → Bool := fun _ => false
  content : BitVec 64 → Session := fun _ => newSession
  /-- A member of `NULL` was accessed. -/
  fault : Bool := false
  created : List (BitVec 64) := []

namespace ReusePool

/-- The session `session_manager_alloc` chooses: the first one of the recycle list, or a new one. -/
def chooseSession (s : ReusePool) (fresh : BitVec 64) : ReusePool × BitVec 64 :=
  match s.recyclelist with
  | [] =>
    ({ s with
        content := Function.update s.content fresh newSession
        created := fresh :: s.created }, fresh)
  | session :: rest => ({ s with recyclesize := s.recyclesize - 1, recyclelist := rest }, session)

/-- `session_manager_alloc`, when `calloc` returns `fresh`. -/
def sessionManagerAlloc (s : ReusePool) (pool : Bool) (fresh : BitVec 64) : ReusePool :=
  let c := s.chooseSession fresh
  let r := s.manager.alloc pool c.2
  match r.2 with
  | none => { s with manager := r.1 }
  | some sid =>
    { c.1 with
      manager := r.1
      id := Function.update s.id c.2 sid
      bound := Function.update s.bound c.2 true }

/-- `session_manager_remove( self, session )`, where `self` is this manager (`true`) or `NULL`. -/
def sessionManagerRemove (s : ReusePool) (self : Bool) (session : BitVec 64) : ReusePool :=
  if session = 0 then s
  else if !self then { s with fault := true }
  else
    let r := s.manager.remove session (s.id session)
    if r.2 = 0 then
      { s with
        manager := r.1
        id := Function.update s.id session 0
        bound := Function.update s.bound session false }
    else s

/-- `session_end( session, id, 1 )` -/
def sessionEnd (s : ReusePool) (session : BitVec 64) : ReusePool :=
  { s with
    content := Function.update s.content session (s.content session).sessionEndRecycle
    id := Function.update s.id session 0 }

/-- `session_manager_recycle( self, session )` -/
def sessionManagerRecycle (s : ReusePool) (self : Bool) (session : BitVec 64) : ReusePool :=
  if s.bound session = self ∧ s.id session ≠ 0 then s.sessionManagerRemove self session
  else if !self then { s with fault := true }
  else { s with recyclesize := s.recyclesize + 1, recyclelist := s.recyclelist ++ [session] }

/-- `channel_shutdown`, after `service.shutdown`. -/
def channelShutdown (s : ReusePool) (session : BitVec 64) : ReusePool :=
  let s := s.sessionManagerRemove (s.bound session) session
  if s.fault then s
  else
    let s := s.sessionEnd session
    s.sessionManagerRecycle (s.bound session) session

end ReusePool

/-- What happens to the sessions of a manager. -/
inductive ReuseInput where
  | alloc (pool : Bool) (fresh : BitVec 64)
  /-- A session that is in a slot is used. -/
  | use (session : BitVec 64) (content : Session)
  /-- `channel_shutdown`; `service.shutdown` leaves `content`. -/
  | shutdown (session : BitVec 64) (content : Session)
deriving DecidableEq, Repr

namespace ReusePool

/-- The manager `session_manager_create` makes. -/
def start (index : BitVec 8) (size : BitVec 32) (id : BitVec 64 → BitVec 64) : ReusePool where
  manager := .create index size
  id := id

/-- One call. Sessions are never freed, so that `calloc` does not return the address of one. -/
def step (s : ReusePool) : ReuseInput → Option ReusePool
  | .alloc pool fresh =>
    if s.fault = true ∨ fresh ∈ s.created then none else some (s.sessionManagerAlloc pool fresh)
  | .use session content =>
    if s.fault = true ∨ s.manager.Free session then none
    else some { s with content := Function.update s.content session content }
  | .shutdown session content =>
    if s.fault = true ∨ s.manager.Free session then none
    else some ({ s with content := Function.update s.content session content }.channelShutdown session)

end ReusePool

/-! ## The places of sessions -/

namespace SessionManager

variable {m : SessionManager} {id : BitVec 64 → BitVec 64} {free : List Nat}

/-- Slot `i` is in use and has this session. -/
def Sits (m : SessionManager) (i : Nat) (session : BitVec 64) : Prop :=
  m.Used i ∧ (m.table i).session = session

theorem free_iff {session : BitVec 64} : m.Free session ↔ ∀ i, ¬m.Sits i session := by
  constructor
  · intro hfree i hsits
    exact hfree i hsits.1.1 hsits.1.2 hsits.2
  · intro hnone i hi hactive heq
    exact hnone i ⟨⟨hi, hactive⟩, heq⟩

/-- A session that sits somewhere sits in one slot only. -/
theorem Valid.sits_unique (h : m.Valid id free) {i : Nat} {session : BitVec 64}
    (hi : m.Sits i session) : ∃! j, m.Sits j session := by
  refine ⟨i, hi, fun j hj => ?_⟩
  exact h.session_inj hj.1 hi.1 (hj.2.trans hi.2.symm)

/-- Growing moves no session. -/
theorem Valid.sits_of_grows {m' : SessionManager} (h : m.Valid id free) (hgrows : m.Grows m')
    (i : Nat) (session : BitVec 64) : m'.Sits i session ↔ m.Sits i session := by
  obtain ⟨-, -, hused, hkept⟩ := h.grows hgrows
  constructor
  · rintro ⟨hi, hsession⟩
    have hold := hused i hi
    rw [(hkept i hold.1).2] at hsession
    exact ⟨hold, hsession⟩
  · rintro ⟨hi, hsession⟩
    obtain ⟨hlt, htable⟩ := hkept i hi.1
    refine ⟨⟨hlt, ?_⟩, ?_⟩
    · rw [htable]
      exact hi.2
    · rw [htable]
      exact hsession

/-- The session that takes a slot sits there, and the others stay. -/
theorem Valid.sits_take (h : m.Valid id free) (hne : m.freeHead ≠ invalidSlotIndex)
    (session : BitVec 64) (i : Nat) (other : BitVec 64) :
    (m.take session).1.Sits i other ↔
      (i = m.freeHead.toNat ∧ other = session) ∨ m.Sits i other := by
  obtain ⟨-, -, -, hlt, hinactive⟩ := h.freeHead hne
  unfold Sits Used SessionManager.take
  dsimp only
  by_cases hi : i = m.freeHead.toNat
  · subst hi
    simp only [Function.update_self, hlt, hinactive, Slot.session, true_and, and_false, false_and,
      or_false, eq_comm, Bool.false_eq_true]
  · rw [Function.update_of_ne hi]
    simp only [hi, false_and, false_or]

/-- The session that gives its slot back sits nowhere, and the others stay. -/
theorem Valid.sits_release (h : m.Valid id free) {session : BitVec 64} {k : Nat}
    (hk : m.Sits k session) (i : Nat) (other : BitVec 64) :
    (m.release (sidSeq (id session))).Sits i other ↔ other ≠ session ∧ m.Sits i other := by
  have hslot : (sidSeq (id session)).toNat = k := by
    rw [← hk.2, h.sidSeq_id hk.1, h.toNat_ofNat hk.1.1]
  unfold Sits Used SessionManager.release
  dsimp only
  rw [hslot]
  by_cases hi : i = k
  · -- the slot that was given back is no longer in use
    subst hi
    simp only [Function.update_self, Slot.isActive_setNextFree, Bool.false_eq_true, and_false,
      false_and, false_iff, not_and]
    rintro hother hused heq
    exact hother (heq.symm.trans hk.2)
  · rw [Function.update_of_ne hi]
    refine ⟨fun hsits => ⟨?_, hsits⟩, fun hsits => hsits.2⟩
    rintro rfl
    exact hi (h.session_inj hsits.1 hk.1 (hsits.2.trans hk.2.symm))

/-- A session that sits in a slot passes the checks of `session_manager_remove`. -/
theorem Valid.owns (h : m.Valid id free) {session : BitVec 64} {k : Nat} (hk : m.Sits k session) :
    m.Owns session (id session) := by
  have hslot : sidSeq (id session) = BitVec.ofNat 32 k := by rw [← hk.2, h.sidSeq_id hk.1]
  have htoNat := h.toNat_ofNat hk.1.1
  have hlt := hk.1.1
  refine ⟨?_, ?_, ?_, ?_⟩
  · rw [← hk.2]
    exact h.session k hk.1
  · rw [hslot]
    bv_omega
  · rw [hslot, htoNat]
    exact hk.1.2
  · rw [hslot, htoNat]
    exact hk.2

end SessionManager

namespace ReusePool

/-- A session is in exactly one place. -/
def Placed (s : ReusePool) (session : BitVec 64) : Prop :=
  ((∃! i, s.manager.Sits i session) ∧ session ∉ s.recyclelist) ∨
    (s.manager.Free session ∧ s.recyclelist.count session = 1)

/-- All sessions are in their places, the recycle list is counted right and its sessions are like
new ones, and no call went through `NULL`. -/
structure Good (s : ReusePool) : Prop where
  fault : s.fault = false
  placed : ∀ session ∈ s.created, s.Placed session
  recyclesize : s.recyclesize.toNat = s.recyclelist.length
  likeNew : ∀ session ∈ s.recyclelist, (s.content session).LikeNew

/-- What the manager knows of its sessions. -/
structure Tracked (s : ReusePool) : Prop where
  valid : ∃ free, s.manager.Valid s.id free
  slots : ∀ i session, s.manager.Sits i session → session ∈ s.created ∧ s.bound session = true
  listed : ∀ session ∈ s.recyclelist, session ∈ s.created

variable {s : ReusePool} {session fresh : BitVec 64}

theorem Good.notMem_of_sits (h : s.Good) (ht : s.Tracked) {i : Nat}
    (hi : s.manager.Sits i session) : session ∉ s.recyclelist := by
  rcases h.placed session (ht.slots i session hi).1 with ⟨-, hlist⟩ | ⟨hfree, -⟩
  · exact hlist
  · exact absurd hi (SessionManager.free_iff.mp hfree i)

/-! ### Using a session -/

/-- What a session in a slot is used for does not concern the recycle list. -/
theorem Good.use (h : s.Good) (ht : s.Tracked) (hfree : ¬s.manager.Free session)
    (content : Session) :
    Good { s with content := Function.update s.content session content } where
  fault := h.fault
  placed := h.placed
  recyclesize := h.recyclesize
  likeNew other hmem := by
    obtain ⟨i, hi⟩ := not_forall_not.mp (mt SessionManager.free_iff.mpr hfree)
    have hne : other ≠ session := by
      rintro rfl
      exact h.notMem_of_sits ht hi hmem
    dsimp only
    rw [Function.update_of_ne hne]
    exact h.likeNew other hmem

theorem Tracked.use (ht : s.Tracked) (content : BitVec 64 → Session) :
    Tracked { s with content := content } :=
  ⟨ht.valid, ht.slots, ht.listed⟩

/-! ### Allocating a session -/

/-- `session_manager_alloc` chose `session`: what is left in `c`. -/
structure Chosen (s c : ReusePool) (session : BitVec 64) : Prop where
  free : s.manager.Free session
  notMem : session ∉ c.recyclelist
  count : ∀ other, other ≠ session → c.recyclelist.count other = s.recyclelist.count other
  recyclesize : c.recyclesize.toNat = c.recyclelist.length
  created : ∀ other, other ∈ c.created ↔ other = session ∨ other ∈ s.created
  content : ∀ other ∈ c.recyclelist, other ∈ s.recyclelist ∧ c.content other = s.content other
  fault : c.fault = false

/-- A new session, or the first one of the recycle list, which leaves the list. -/
theorem Good.chosen (h : s.Good) (ht : s.Tracked) (hfresh : fresh ∉ s.created) :
    Chosen s (s.chooseSession fresh).1 (s.chooseSession fresh).2 := by
  unfold chooseSession
  cases hlist : s.recyclelist with
  | nil =>
    have hfree : s.manager.Free fresh :=
      SessionManager.free_iff.mpr fun i hi => hfresh (ht.slots i fresh hi).1
    have hsize : s.recyclesize.toNat = 0 := by
      rw [h.recyclesize, hlist]
      rfl
    constructor <;> simp [hfree, hlist, hsize, h.fault]
  | cons session rest =>
    have hmem : session ∈ s.recyclelist := by simp [hlist]
    have hcreated := ht.listed session hmem
    have hsize := h.recyclesize
    rw [hlist, List.length_cons] at hsize
    obtain ⟨hfree, hcount⟩ : s.manager.Free session ∧ s.recyclelist.count session = 1 := by
      rcases h.placed session hcreated with ⟨-, hlist⟩ | hplace
      · exact absurd hmem hlist
      · exact hplace
    rw [hlist, List.count_cons_self, Nat.add_right_cancel_iff] at hcount
    refine ⟨hfree, List.count_eq_zero.mp hcount, ?_, ?_, ?_, ?_, h.fault⟩
    · intro other hne
      simp [hlist, Ne.symm hne]
    · show (s.recyclesize - 1).toNat = rest.length
      bv_omega
    · intro other
      refine ⟨.inr, fun hother => ?_⟩
      rcases hother with rfl | hother
      · exact hcreated
      · exact hother
    · intro other hother
      simp [hlist, hother]

/-- A manager that grew, or did not. -/
theorem Tracked.grow {m : SessionManager} (ht : s.Tracked)
    (hm : m = s.manager ∨ s.manager.Grows m) :
    (∃ free, m.Valid s.id free) ∧ ∀ i session, m.Sits i session ↔ s.manager.Sits i session := by
  obtain ⟨free, hvalid⟩ := ht.valid
  rcases hm with rfl | hgrows
  · exact ⟨⟨free, hvalid⟩, fun _ _ => Iff.rfl⟩
  · exact ⟨(hvalid.grows hgrows).1, hvalid.sits_of_grows hgrows⟩

/-- The places of sessions depend on who sits where. -/
theorem Placed.congr {t : ReusePool} (h : s.Placed session)
    (hsits : ∀ i, t.manager.Sits i session ↔ s.manager.Sits i session)
    (hcount : t.recyclelist.count session = s.recyclelist.count session) : t.Placed session := by
  unfold Placed at h ⊢
  rw [SessionManager.free_iff, ← List.count_eq_zero] at h ⊢
  simp only [hsits, hcount]
  exact h

/-- Allocating a session, a new one or one that is used again, or failing to. -/
theorem Good.alloc (h : s.Good) (ht : s.Tracked) (hfresh : fresh ∉ s.created) (pool : Bool) :
    (s.sessionManagerAlloc pool fresh).Good ∧ (s.sessionManagerAlloc pool fresh).Tracked := by
  have hchosen := h.chosen ht hfresh
  obtain ⟨free, hvalid⟩ := ht.valid
  unfold sessionManagerAlloc
  dsimp only
  generalize (s.chooseSession fresh).2 = session at hchosen ⊢
  generalize (s.chooseSession fresh).1 = c at hchosen ⊢
  obtain ⟨m, hm, halloc⟩ := hvalid.alloc_cases pool hchosen.free
  obtain ⟨⟨free', hvalid'⟩, hsits⟩ := ht.grow hm
  rcases halloc with hnone | ⟨hsome, hhead, hsession, hfree⟩
  · -- the table is full, or there is no memory
    rw [hnone]
    refine ⟨⟨h.fault, fun other hother => ?_, h.recyclesize, h.likeNew⟩,
      ⟨⟨free', hvalid'⟩, fun i other hi => ht.slots i other ((hsits i other).mp hi), ht.listed⟩⟩
    exact (h.placed other hother).congr (fun i => hsits i other) rfl
  · rw [hsome]
    dsimp only
    have htake := hvalid'.sits_take hhead session
    obtain ⟨free'', hvalid''⟩ := hvalid'.take hhead hsession hfree
    refine ⟨⟨hchosen.fault, fun other hother => ?_, hchosen.recyclesize, fun other hother => ?_⟩,
      ⟨⟨free'', hvalid''⟩, fun i other hi => ?_, fun other hother => ?_⟩⟩
    · by_cases hne : other = session
      · subst hne
        exact .inl ⟨hvalid''.sits_unique ((htake _ _).mpr (.inl ⟨rfl, rfl⟩)), hchosen.notMem⟩
      · have hold := (hchosen.created other).mp hother
        refine (h.placed other (hold.resolve_left hne)).congr (fun i => ?_) (hchosen.count other hne)
        rw [htake, hsits]
        simp [hne]
    · obtain ⟨hmem, hsame⟩ := hchosen.content other hother
      dsimp only at hother ⊢
      rw [hsame]
      exact h.likeNew other hmem
    · rcases (htake i other).mp hi with ⟨-, rfl⟩ | hold
      · exact ⟨(hchosen.created _).mpr (.inl rfl), Function.update_self ..⟩
      · obtain ⟨hcreated, hbound⟩ := ht.slots i other ((hsits i other).mp hold)
        have hne : other ≠ session := by
          rintro rfl
          exact SessionManager.free_iff.mp hfree i hold
        refine ⟨(hchosen.created _).mpr (.inr hcreated), ?_⟩
        dsimp only
        rw [Function.update_of_ne hne]
        exact hbound
    · exact (hchosen.created _).mpr (.inr (ht.listed other (hchosen.content other hother).1))

/-! ### Shutting a session down -/

/-- All is well but for `session`, which has ended and is in no place. -/
structure Pending (s : ReusePool) (session : BitVec 64) : Prop where
  fault : s.fault = false
  placed : ∀ other ∈ s.created, other ≠ session → s.Placed other
  recyclesize : s.recyclesize.toNat = s.recyclelist.length
  likeNew : ∀ other ∈ s.recyclelist, (s.content other).LikeNew
  free : s.manager.Free session
  notMem : session ∉ s.recyclelist
  new : (s.content session).LikeNew
  id : s.id session = 0
  unbound : s.bound session = false

/-- The session leaves its slot and is reset. -/
theorem Good.ended (h : s.Good) (ht : s.Tracked) {k : Nat} (hk : s.manager.Sits k session) :
    Pending ((s.sessionManagerRemove true session).sessionEnd session) session := by
  obtain ⟨free, hvalid⟩ := ht.valid
  have howns := hvalid.owns hk
  have hlist := h.notMem_of_sits ht hk
  have hsits := hvalid.sits_release hk
  have hremove : s.manager.remove session (s.id session) =
      (s.manager.release (sidSeq (s.id session)), 0) := if_pos howns
  unfold sessionManagerRemove sessionEnd
  rw [if_neg howns.1, if_neg (by decide), hremove]
  dsimp only
  rw [if_pos rfl]
  refine ⟨h.fault, fun other hother hne => ?_, h.recyclesize, fun other hother => ?_, ?_, hlist, ?_,
    Function.update_self .., Function.update_self ..⟩
  · refine (h.placed other hother).congr (fun i => ?_) rfl
    rw [hsits]
    simp [hne]
  · have hne : other ≠ session := by
      rintro rfl
      exact hlist hother
    dsimp only
    rw [Function.update_of_ne hne]
    exact h.likeNew other hother
  · apply SessionManager.free_iff.mpr
    intro i hi
    exact ((hsits i session).mp hi).1 rfl
  · dsimp only
    rw [Function.update_self]
    exact sessionEndRecycle_likeNew _

/-- With its manager, the session would get into the recycle list as it should. -/
theorem Pending.recycle (h : s.Pending session) (hsize : s.recyclelist.length + 1 < 2 ^ 32) :
    (s.sessionManagerRecycle true session).Good := by
  have hunbound := h.unbound
  have hlength := h.recyclesize
  unfold sessionManagerRecycle
  rw [if_neg (by simp [hunbound]), if_neg (by decide)]
  refine ⟨h.fault, fun other hother => ?_, ?_, fun other hother => ?_⟩
  · by_cases hne : other = session
    · subst hne
      right
      have hcount := List.count_eq_zero.mpr h.notMem
      exact ⟨h.free, by simp [hcount]⟩
    · refine (h.placed other hother hne).congr (fun _ => Iff.rfl) ?_
      simp [Ne.symm hne]
  · show (s.recyclesize + 1).toNat = (s.recyclelist ++ [session]).length
    rw [List.length_append, List.length_singleton]
    bv_omega
  · rcases List.mem_append.mp hother with hold | hnew
    · exact h.likeNew other hold
    · rw [List.mem_singleton.mp hnew]
      exact h.new

/-- With the manager the session has by then, `NULL` is accessed. -/
theorem Pending.recycle_null (h : s.Pending session) :
    (s.sessionManagerRecycle (s.bound session) session).fault = true := by
  have hid := h.id
  rw [h.unbound]
  unfold sessionManagerRecycle
  rw [if_neg (by simp [hid])]
  rfl

/-- Every session that is shut down is recycled with `NULL` for its manager. -/
theorem Good.shutdown (h : s.Good) (ht : s.Tracked) (hfree : ¬s.manager.Free session) :
    (s.channelShutdown session).fault = true := by
  obtain ⟨k, hk⟩ := not_forall_not.mp (mt SessionManager.free_iff.mpr hfree)
  have hbound : s.bound session = true := (ht.slots k session hk).2
  have hended := h.ended ht hk
  have hremoved : (s.sessionManagerRemove true session).fault = false := hended.fault
  unfold channelShutdown
  dsimp only
  rw [hbound, if_neg (by simp [hremoved])]
  exact hended.recycle_null

/-! ## Every run -/

/-- No session is shut down. -/
def NoShutdown (_ : ReusePool) : ReuseInput → Prop
  | .shutdown _ _ => False
  | _ => True

instance (s : ReusePool) : (i : ReuseInput) → Decidable (NoShutdown s i)
  | .alloc _ _ | .use _ _ => isTrue trivial
  | .shutdown _ _ => isFalse not_false

theorem step_good_iff {t : ReusePool} {i : ReuseInput} (ht : s.Tracked) (h : s.Good)
    (hstep : step s i = some t) : t.Good ↔ NoShutdown s i := by
  cases i with
  | alloc pool fresh =>
    simp only [step, Option.ite_none_left_eq_some, Option.some.injEq, not_or] at hstep
    obtain ⟨⟨-, hfresh⟩, rfl⟩ := hstep
    exact iff_of_true (h.alloc ht hfresh pool).1 trivial
  | use session content =>
    simp only [step, Option.ite_none_left_eq_some, Option.some.injEq, not_or] at hstep
    obtain ⟨⟨-, hfree⟩, rfl⟩ := hstep
    exact iff_of_true (h.use ht hfree content) trivial
  | shutdown session content =>
    simp only [step, Option.ite_none_left_eq_some, Option.some.injEq, not_or] at hstep
    obtain ⟨⟨-, hfree⟩, rfl⟩ := hstep
    refine iff_of_false (fun hgood => ?_) not_false
    -- the session has been used for something, and is good up to the end
    have hfault := (h.use ht hfree content).shutdown (ht.use _) hfree
    rw [hgood.fault] at hfault
    exact absurd hfault Bool.false_ne_true

theorem step_tracked {t : ReusePool} {i : ReuseInput} (ht : s.Tracked) (h : s.Good) (hgood : t.Good)
    (hstep : step s i = some t) : t.Tracked := by
  have hnone := (step_good_iff ht h hstep).mp hgood
  cases i with
  | alloc pool fresh =>
    simp only [step, Option.ite_none_left_eq_some, Option.some.injEq, not_or] at hstep
    obtain ⟨⟨-, hfresh⟩, rfl⟩ := hstep
    exact (h.alloc ht hfresh pool).2
  | use session content =>
    simp only [step, Option.ite_none_left_eq_some, Option.some.injEq, not_or] at hstep
    obtain ⟨-, rfl⟩ := hstep
    exact ht.use _
  | shutdown session content => exact hnone.elim

theorem start_good (index : BitVec 8) (size : BitVec 32) (id : BitVec 64 → BitVec 64) :
    (start index size id).Good ∧ (start index size id).Tracked := by
  have hempty : ∀ i session, ¬(start index size id).manager.Sits i session := by
    rintro i session ⟨⟨hlt, hactive⟩, -⟩
    obtain ⟨free, hvalid⟩ := SessionManager.create_valid index size id
    -- a new manager counts no session
    have hcount : (SessionManager.create index size).active = 0 := hvalid.count.symm
    rw [SessionManager.active, Finset.card_eq_zero] at hcount
    have hmem : i ∈ (Finset.range (SessionManager.create index size).capacity.toNat).filter
        fun i => ((SessionManager.create index size).table i).isActive = true :=
      Finset.mem_filter.mpr ⟨Finset.mem_range.mpr hlt, hactive⟩
    rw [hcount] at hmem
    exact absurd hmem (Finset.notMem_empty i)
  refine ⟨⟨rfl, ?_, rfl, ?_⟩, ⟨SessionManager.create_valid index size id, ?_, ?_⟩⟩
  · intro session hmem
    cases hmem
  · intro session hmem
    cases hmem
  · intro i session hi
    exact absurd hi (hempty i session)
  · intro session hmem
    cases hmem

/-- In a run of a new manager all is well at all times if and only if no session is shut down. -/
theorem reuse_good_iff (index : BitVec 8) (size : BitVec 32) (id : BitVec 64 → BitVec 64)
    (is : List ReuseInput) (t : ReusePool) (hrun : Run step (start index size id) is t) :
    (∀ js u, js <+: is → Run step (start index size id) js u → u.Good) ↔
      GuardedRun step NoShutdown (start index size id) is t :=
  states_all_iff_guarded hrun (start_good index size id).1 (start_good index size id).2
    (fun _ _ _ ht h hstep => step_good_iff ht h hstep)
    fun _ _ _ ht h hgood hstep => step_tracked ht h hgood hstep

/-- Two sessions, one of which gets a message into its send queue. -/
theorem reuse_good_twoSessions :
    ∃ t, Run step (start 0 1 fun _ => 0)
      [.alloc true 0x10, .use 0x10 { sendqueue := [⟨1, [7], []⟩] }, .alloc true 0x20] t ∧ t.Good := by
  have hrun : GuardedRun step NoShutdown (start 0 1 fun _ => 0)
      [.alloc true 0x10, .use 0x10 { sendqueue := [⟨1, [7], []⟩] }, .alloc true 0x20] _ :=
    .of_exec rfl
  exact ⟨_, hrun.run, (reuse_good_iff _ _ _ _ _ hrun.run).mpr hrun _ _ (List.prefix_refl _) hrun.run⟩

/-- The first session that is shut down is in no slot and in no recycle list. -/
theorem reuse_good_shutdown_fails :
    ∃ t, Run step (start 0 1 fun _ => 0) [.alloc true 0x10, .shutdown 0x10 {}] t ∧
      t.fault = true ∧ t.created = [0x10] ∧ t.manager.Free 0x10 ∧ t.recyclelist = [] ∧ ¬t.Good := by
  have hrun : exec step (start 0 1 fun _ => 0) [.alloc true 0x10, .shutdown 0x10 {}] = some _ := rfl
  exact ⟨_, run_iff_exec.mpr hrun, rfl, rfl, by decide, rfl, fun h => absurd h.fault (by decide)⟩

end ReusePool

end Evlite
