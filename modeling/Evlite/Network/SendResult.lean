import Evlite.Network.Broadcast

/-!
# The Result of iolayer_send

`iolayer_send` (`network.c`) on the thread that owns the session. The number of bytes that
`_send_only` writes at once goes up through `_send_buffer` and `session_send` to
`_send_direct`, where an invalid session is `0` too, and `iolayer_send` reports every
result that is not positive as a failure. A payload of which nothing was written at once, but
which was queued as a whole, is reported like one that was dropped.

The buffers are told apart by where they come from, so that one can say what becomes of the
one that the caller passed in.

## Main results

- `sessionSend_takes`: a session that is not exiting takes the whole payload, if there is memory
  for what is not written at once.
- `iolayerSend_frees`: the caller's buffer is freed once if it is to be freed, else never.
- `iolayerSend_truthful_iff`: when the result tells what happened to the payload.
-/

namespace Evlite

/-! ## Buffers -/

/-- The buffers of one `iolayer_send`. -/
inductive BufferOrigin where
  /-- The one the caller passed in. -/
  | caller
  /-- The copy that is made for another thread. -/
  | copy
  /-- What the `transform` of the layer returned. -/
  | layer
  /-- What the `transform` of the session returned. -/
  | session
deriving DecidableEq, Repr

/-- A transformed buffer is freed by whoever had it made. -/
def Transform.frees (t : Transform) (origin : BufferOrigin) : List BufferOrigin :=
  match t with
  | .fresh _ => [origin]
  | _ => []

/-- The bytes an effect puts on the wire. -/
def Effect.bytes : Effect → List UInt8
  | .wrote bytes => bytes
  | _ => []

namespace Session

/-! ## The functions -/

/-- `_send_direct`, with its result and the buffers that are freed. The session of an id that
names none is one that was freed. -/
def sendTask (s : Session) (req : SendRequest) (isfree : Bool) :
    Session × Int × List BufferOrigin :=
  let r : Session × Int × List BufferOrigin :=
    if s.freed then (s, 0, [])
    else
      match req.layer.apply req.buf with
      | some buffer =>
        let r := s.sessionSend buffer req.transform req.msg req.io
        (r.1, r.2, req.transform.frees .session ++ req.layer.frees .layer)
      | none => (s, 0, [])
  (r.1, r.2.1, r.2.2 ++ if isfree then [.caller] else [])

/-- `iolayer_send`. `own` tells whether the session's thread makes the call; if another
thread does, `post` is the answer of `iothreads_post`, and the posted task runs later. -/
def iolayerSend (s : Session) (nthreads index : Nat) (own : Bool) (post : Int) (req : SendRequest)
    (isfree : Bool) : Session × Int × List BufferOrigin :=
  if nthreads ≤ index then (s, -1, if isfree then [.caller] else [])
  else if own then
    let r := s.sendTask req isfree
    (r.1, if 0 < r.2.1 then 0 else -3, r.2.2)
  else (s, post, if post ≠ 0 then [if isfree then .caller else .copy] else [])

/-- What `_send_direct` does to the session does not depend on who frees the buffer. -/
theorem sendTask_session (s : Session) (req : SendRequest) (isfree : Bool) :
    (s.sendTask req isfree).1 = s.whenAlive (sendDirect · req) := by
  unfold sendTask whenAlive sendDirect
  dsimp only
  split
  · rfl
  · cases req.layer.apply req.buf <;> rfl

/-! ## What the session takes -/

/-- The bytes that were written or queued between `s` and a later `t`. -/
def taken (s t : Session) : List UInt8 :=
  (s.newEffects t).flatMap Effect.bytes ++
    (t.sendqueue.drop s.sendqueue.length).flatMap Message.buffer

theorem taken_self (s : Session) : s.taken s = [] := by
  simp [taken, newEffects]

/-- What a session takes that writes the bytes `es` and queues the messages `q`. -/
theorem taken_eq {s t : Session} {es : List Effect} {q : List Message} (htrace : t.trace = s.trace ++ es)
    (hqueue : t.sendqueue = s.sendqueue ++ q) :
    s.taken t = es.flatMap Effect.bytes ++ q.flatMap Message.buffer := by
  rw [taken, newEffects_eq htrace, hqueue, List.drop_left]

/-- The direct write of `n` bytes, and what comes after it without writing anything. -/
theorem taken_sent {s t u : Session} {p : List UInt8} {n : Nat} {es : List Effect} {q : List Message}
    (hsent : SentDirectly s p n t) (htrace : u.trace = t.trace ++ es)
    (hnone : es.flatMap Effect.bytes = []) (hqueue : u.sendqueue = t.sendqueue ++ q) :
    s.taken u = p.take n ++ q.flatMap Message.buffer := by
  obtain ⟨hsame, first, hfirst, hwritten⟩ := hsent.records
  have hbytes : first.flatMap Effect.bytes = p.take n := by
    rcases hwritten with ⟨rfl, rfl⟩ | rfl
    · simp
    · simp [Effect.bytes]
  have hall : u.trace = s.trace ++ (first ++ es) := by rw [htrace, hfirst, List.append_assoc]
  rw [taken_eq hall (hqueue.trans (by rw [hsame])), List.flatMap_append, hbytes, hnone, List.append_nil]

/-- What the session takes of a payload `p` of which `n` bytes are written at once, and the
result of `session_send`. -/
inductive Takes (s : Session) (p : List UInt8) (n : Nat) : List UInt8 → Int → Prop where
  | whole (hall : p.length ≤ n) : Takes s p n p n
  | stored (hrest : n < p.length) (hmemory : s.StoresRest) : Takes s p n p n
  /-- The rest finds no memory, and the call need not fail. -/
  | lost (hrest : n < p.length) (hmemory : ¬s.StoresRest) (rc : Int) (hrc : 0 < rc → 0 < n) :
      Takes s p n (p.take n) rc

/-- A session that is exiting takes nothing; any other one takes what is written at once, and the
rest if there is memory for it. -/
theorem sessionSend_takes (s : Session) (buf : List UInt8) (transform : Transform) (msg : Nat)
    (io : IoResult) {p : List UInt8} (hp : transform.apply buf = some p) :
    (s.status.exiting = true ∧ s.sessionSend buf transform msg io = (s, -1)) ∨
      (s.status.exiting = false ∧ ∃ n : Nat, n ≤ p.length ∧ (s.sendOnly p io).2 = n ∧
        Takes s p n (s.taken (s.sessionSend buf transform msg io).1)
          (s.sessionSend buf transform msg io).2) := by
  simp only [sessionSend, hp]
  have hrun := sendBuffer_cases s p msg io
  generalize s.sendBuffer p msg io = r at hrun
  obtain ⟨u, rc⟩ := r
  dsimp only at hrun
  have haccept : ∀ (t : Session) (n : Nat), accept (t, (n : Int)) p = (t.emit (.accepted p), (n : Int)) :=
    fun t n => if_pos (Int.natCast_nonneg n)
  cases hrun with
  | refused hexit => exact .inl ⟨hexit, rfl⟩
  | whole hexit n _ hsent honly hall =>
    have htrace : (u.emit (.accepted p)).trace = u.trace ++ [.accepted p] := rfl
    have hqueue : (u.emit (.accepted p)).sendqueue = u.sendqueue ++ [] := (List.append_nil _).symm
    have htaken : s.taken (u.emit (.accepted p)) = p := by
      rw [taken_sent hsent htrace rfl hqueue, List.flatMap_nil, List.append_nil,
        List.take_of_length_le hall]
    rw [haccept]
    exact .inr ⟨hexit, n, hsent.le_length, by rw [honly], htaken.symm ▸ .whole hall⟩
  | noMessage hexit n t hsent honly hrest hmemory =>
    have htrace : t.allocate.1.trace = t.trace ++ [] := (List.append_nil _).symm
    have hqueue : t.allocate.1.sendqueue = t.sendqueue ++ [] := (List.append_nil _).symm
    have htaken : s.taken t.allocate.1 = p.take n := by
      rw [taken_sent hsent htrace rfl hqueue, List.flatMap_nil, List.append_nil]
    have hnone : ¬s.StoresRest := fun h => by
      rw [hsent.allocate.1, h.1] at hmemory
      cases hmemory
    have hrun : accept (t.allocate.1, (-2 : Int)) p = (t.allocate.1, -2) :=
      if_neg (show ¬(0 : Int) ≤ -2 by decide)
    rw [hrun]
    exact .inr ⟨hexit, n, hsent.le_length, by rw [honly],
      htaken.symm ▸ .lost hrest hnone (-2) (fun h => by omega)⟩
  | queued hexit n t hsent honly hrest hmemory =>
    obtain ⟨hcreated, hpushed⟩ := hsent.allocate
    have htrace : ((t.queueRest p msg n).emit (.accepted p)).trace =
        t.trace ++ [.messageCreate msg, .accepted p] := by simp [emit]
    rw [haccept]
    refine .inr ⟨hexit, n, hsent.le_length, by rw [honly], ?_⟩
    cases hroom : t.allocate.1.allocate.2 with
    | true =>
      -- what is left goes into the queue
      have htaken : s.taken ((t.queueRest p msg n).emit (.accepted p)) = p := by
        rw [taken_sent (q := [remainder p msg n]) hsent htrace rfl (by simp [emit, queueRest_sendqueue, hroom])]
        simp [remainder]
      have hstores : s.StoresRest := ⟨hcreated.symm.trans hmemory, hpushed.symm.trans hroom⟩
      exact htaken.symm ▸ .stored hrest hstores
    | false =>
      have htaken : s.taken ((t.queueRest p msg n).emit (.accepted p)) = p.take n := by
        rw [taken_sent (q := []) hsent htrace rfl (by simp [emit, queueRest_sendqueue, hroom])]
        simp
      have hnone : ¬s.StoresRest := fun h => by
        rw [hpushed, h.2] at hroom
        cases hroom
      exact htaken.symm ▸ .lost hrest hnone n (fun h => by omega)

/-! ## What becomes of the caller's buffer -/

theorem frees_caller (t : Transform) {origin : BufferOrigin} (h : origin ≠ .caller) :
    BufferOrigin.caller ∉ t.frees origin := by
  cases t <;> simp [Transform.frees, h.symm]

/-- The caller's buffer is freed once if the call is to free it, and never otherwise. -/
theorem iolayerSend_frees (s : Session) (nthreads index : Nat) (req : SendRequest) (isfree : Bool)
    (post : Int) :
    (s.iolayerSend nthreads index true post req isfree).2.2.count .caller = if isfree then 1 else 0 := by
  -- whatever else is freed on the way, the caller's buffer is only freed at the end
  have hnone : ∀ l : List BufferOrigin, BufferOrigin.caller ∉ l →
      (l ++ if isfree then [BufferOrigin.caller] else []).count .caller = if isfree then 1 else 0 := by
    intro l hl
    rw [List.count_append, List.count_eq_zero.mpr hl]
    cases isfree <;> rfl
  unfold iolayerSend
  split
  · cases isfree <;> rfl
  · rw [if_pos rfl]
    dsimp only
    unfold sendTask
    dsimp only
    split
    · exact hnone [] List.not_mem_nil
    · split
      · refine hnone _ fun hmem => ?_
        rcases List.mem_append.mp hmem with hmem | hmem
        · exact frees_caller _ (by decide) hmem
        · exact frees_caller _ (by decide) hmem
      · exact hnone [] List.not_mem_nil

/-! ## Main result -/

/-- The result `r` of `iolayer_send` tells what happened: `0` when the session took the whole
payload, another value when it took nothing, and the caller's buffer is freed as asked. -/
structure Truthful (s : Session) (req : SendRequest) (isfree : Bool)
    (r : Session × Int × List BufferOrigin) : Prop where
  accepted : r.2.1 = 0 ↔ ∃ p, req.payload = some p ∧ p ≠ [] ∧ s.taken r.1 = p
  refused : r.2.1 ≠ 0 ↔ s.taken r.1 = []
  frees : r.2.2.count .caller = if isfree then 1 else 0

/-- A call that fails and leaves the session alone is truthful. -/
theorem Truthful.untouched {s : Session} {req : SendRequest} {isfree : Bool}
    {r : Session × Int × List BufferOrigin} (hsession : s.taken r.1 = []) (hrc : r.2.1 ≠ 0)
    (hfrees : r.2.2.count .caller = if isfree then 1 else 0) : s.Truthful req isfree r := by
  refine ⟨iff_of_false hrc ?_, iff_of_true hrc hsession, hfrees⟩
  rintro ⟨p, -, hp, htaken⟩
  exact hp (htaken ▸ hsession)

/-- The payload is dropped, and the result is not positive; or the session takes what it can. -/
theorem sendTask_cases (s : Session) (req : SendRequest) (isfree : Bool) :
    ((s.freed = true ∨ s.status.exiting = true ∨ req.payload = none ∨ req.payload = some []) ∧
      s.taken (s.sendTask req isfree).1 = [] ∧ ¬0 < (s.sendTask req isfree).2.1) ∨
    (s.freed = false ∧ s.status.exiting = false ∧ ∃ (p : List UInt8) (n : Nat),
      req.payload = some p ∧ p ≠ [] ∧ (s.sendOnly p req.io).2 = n ∧
      Takes s p n (s.taken (s.sendTask req isfree).1) (s.sendTask req isfree).2.1) := by
  cases hfreed : s.freed with
  | true =>
    -- the result 0 for an unknown session is not told from the one for a queued payload
    left
    refine ⟨.inl rfl, ?_, ?_⟩
    · simp [sendTask, hfreed, taken_self]
    · simp [sendTask, hfreed]
  | false =>
    cases hlayer : req.layer.apply req.buf with
    | none =>
      have hpayload : req.payload = none := by simp [SendRequest.payload, hlayer]
      left
      refine ⟨.inr (.inr (.inl hpayload)), ?_, ?_⟩
      · simp [sendTask, hfreed, hlayer, taken_self]
      · simp [sendTask, hfreed, hlayer]
    | some buffer =>
      have hpayload : req.payload = req.transform.apply buffer := by simp [SendRequest.payload, hlayer]
      have hsession : (s.sendTask req isfree).1 =
          (s.sessionSend buffer req.transform req.msg req.io).1 := by simp [sendTask, hfreed, hlayer]
      have hrc : (s.sendTask req isfree).2.1 =
          (s.sessionSend buffer req.transform req.msg req.io).2 := by simp [sendTask, hfreed, hlayer]
      rw [hpayload, hsession, hrc]
      cases hp : req.transform.apply buffer with
      | none =>
        have hfailed : s.sessionSend buffer req.transform req.msg req.io = (s, -1) := by
          simp [sessionSend, hp]
        left
        rw [hfailed]
        exact ⟨.inr (.inr (.inl rfl)), taken_self s, by simp⟩
      | some p =>
        rcases sessionSend_takes s buffer req.transform req.msg req.io hp with
          ⟨hexit, hfailed⟩ | ⟨hexit, n, hle, hdirect, htakes⟩
        · left
          rw [hfailed]
          exact ⟨.inr (.inl hexit), taken_self s, by simp⟩
        · by_cases hempty : p = []
          · -- there is nothing to take
            left
            subst hempty
            generalize (s.sessionSend buffer req.transform req.msg req.io).2 = rc at htakes
            generalize s.taken (s.sessionSend buffer req.transform req.msg req.io).1 = b at htakes
            rw [List.length_nil] at hle
            cases htakes with
            | whole => exact ⟨.inr (.inr (.inr rfl)), rfl, by omega⟩
            | stored hrest => exact absurd hrest (Nat.not_lt_zero n)
            | lost hrest => exact absurd hrest (Nat.not_lt_zero n)
          · exact .inr ⟨rfl, hexit, p, n, rfl, hempty, hdirect, htakes⟩

/-- For a payload the result is right if it is `0` and the session took all of it, or if it is
another value and the session took nothing. -/
theorem truthful_iff_of_payload {s : Session} {req : SendRequest} {isfree : Bool} {p : List UInt8}
    {r : Session × Int × List BufferOrigin} (hpayload : req.payload = some p) (hempty : p ≠ [])
    (hfrees : r.2.2.count .caller = if isfree then 1 else 0) :
    s.Truthful req isfree r ↔ (r.2.1 = 0 ∧ s.taken r.1 = p) ∨ (r.2.1 ≠ 0 ∧ s.taken r.1 = []) := by
  have haccepted : (∃ q, req.payload = some q ∧ q ≠ [] ∧ s.taken r.1 = q) ↔ s.taken r.1 = p := by
    rw [hpayload]
    constructor
    · rintro ⟨q, hq, -, htaken⟩
      exact htaken.trans (Option.some.inj hq).symm
    · exact fun htaken => ⟨p, rfl, hempty, htaken⟩
  constructor
  · intro h
    by_cases hrc : r.2.1 = 0
    · exact .inl ⟨hrc, haccepted.mp (h.accepted.mp hrc)⟩
    · exact .inr ⟨hrc, h.refused.mp hrc⟩
  · rintro (⟨hrc, htaken⟩ | ⟨hrc, htaken⟩)
    · exact ⟨iff_of_true hrc (haccepted.mpr htaken),
        iff_of_false (not_not_intro hrc) (htaken ▸ hempty), hfrees⟩
    · exact .untouched htaken hrc hfrees

/-- A part of `p` is written at once and the rest, if there is any, finds memory; or nothing is
written at once, and there is no memory to store it. -/
def ShowsFate (s : Session) (p : List UInt8) (io : IoResult) : Prop :=
  if s.WritesDirectly 1 io then s.WritesDirectly p.length io ∨ s.StoresRest else ¬s.StoresRest

/-- The result tells the fate of a payload where the number of bytes written at once does. -/
theorem Takes.told_iff {s : Session} {p b : List UInt8} {n : Nat} {rc : Int} {io : IoResult}
    (h : Takes s p n b rc) (hempty : p ≠ []) (hexit : s.status.exiting = false)
    (hdirect : (s.sendOnly p io).2 = n) :
    ((if 0 < rc then (0 : Int) else -3) = 0 ∧ b = p) ∨ ((if 0 < rc then (0 : Int) else -3) ≠ 0 ∧ b = []) ↔
      s.ShowsFate p io := by
  have hlength : 0 < p.length := List.length_pos_iff.mpr hempty
  have hsome : 0 < n ↔ s.WritesDirectly 1 io := by
    rw [← s.le_sendOnly_iff p io hexit Nat.one_pos hlength, hdirect]
    omega
  have hall : p.length ≤ n ↔ s.WritesDirectly p.length io := by
    rw [← s.le_sendOnly_iff p io hexit hlength (Nat.le_refl _), hdirect]
    omega
  rw [ShowsFate]
  simp only [← hsome, ← hall]
  cases h with
  | whole hwhole =>
    have hpos : 0 < n := by omega
    simp [hpos, hwhole]
  | stored hrest hmemory =>
    by_cases hpos : 0 < n
    · simp [hpos, hmemory]
    · simp [hpos, hmemory, hempty]
  | lost hrest hmemory rc hrc =>
    have hnot : ¬p.length ≤ n := Nat.not_le.mpr hrest
    by_cases hpos : 0 < n
    · have hpart : p.take n ≠ p := fun h => by
        have hcut := congrArg List.length h
        rw [List.length_take] at hcut
        omega
      have hsent : p.take n ≠ [] := fun h => by
        have hcut := congrArg List.length h
        rw [List.length_take, List.length_nil] at hcut
        omega
      simp [hpos, hnot, hmemory, hpart, hsent]
    · have hfail : ¬0 < rc := fun h => hpos (hrc h)
      have hzero : n = 0 := by omega
      simp [hfail, hzero, hmemory]

/-- On the session's own thread, `iolayer_send` tells what happened to the payload exactly when
the payload is dropped, or when a part of it is written at once and none of the rest is lost, or
when all of it is lost. -/
theorem iolayerSend_truthful_iff (s : Session) (nthreads index : Nat) (post : Int) (req : SendRequest)
    (isfree : Bool) :
    s.Truthful req isfree (s.iolayerSend nthreads index true post req isfree) ↔
      (nthreads ≤ index ∨ s.freed = true ∨ s.status.exiting = true ∨ req.payload = none ∨
        req.payload = some [] ∨ ∃ p, req.payload = some p ∧ s.ShowsFate p req.io) := by
  have hfrees := iolayerSend_frees s nthreads index req isfree post
  by_cases hindex : nthreads ≤ index
  · have hcall : s.iolayerSend nthreads index true post req isfree =
        (s, -1, if isfree then [.caller] else []) := if_pos hindex
    rw [hcall] at hfrees ⊢
    exact iff_of_true (.untouched (taken_self s) (by show (-1 : Int) ≠ 0; decide) hfrees) (.inl hindex)
  have hcall : s.iolayerSend nthreads index true post req isfree =
      ((s.sendTask req isfree).1, if 0 < (s.sendTask req isfree).2.1 then 0 else -3,
        (s.sendTask req isfree).2.2) := by
    rw [iolayerSend, if_neg hindex, if_pos rfl]
  rw [hcall] at hfrees ⊢
  rcases s.sendTask_cases req isfree with
    ⟨hdropped, htaken, hrc⟩ | ⟨hfreed, hexit, p, n, hpayload, hempty, hdirect, htakes⟩
  · -- where nothing was sent and nothing taken, the result is right
    refine iff_of_true (.untouched htaken ?_ hfrees) ?_
    · dsimp only
      rw [if_neg hrc]
      decide
    · rcases hdropped with hfreed | hexit | hnone | hempty
      · exact .inr (.inl hfreed)
      · exact .inr (.inr (.inl hexit))
      · exact .inr (.inr (.inr (.inl hnone)))
      · exact .inr (.inr (.inr (.inr (.inl hempty))))
  · rw [truthful_iff_of_payload hpayload hempty hfrees, htakes.told_iff hempty hexit hdirect, hpayload]
    simp [hindex, hfreed, hexit, hempty]

/-- A session with a full socket buffer. -/
def fullSocket : Session := { fd := 5 }

/-- The payload is queued as a whole, and the caller is told that it was not. -/
theorem iolayerSend_fullSocket_untruthful :
    ¬fullSocket.Truthful { buf := [1, 2, 3], io := .again } false
      (fullSocket.iolayerSend 1 0 true 0 { buf := [1, 2, 3], io := .again } false) := by
  intro h
  have hzero := h.accepted.mpr ⟨[1, 2, 3], rfl, by decide, by decide⟩
  exact absurd hzero (by decide)

end Session

end Evlite
