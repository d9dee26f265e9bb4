import Evlite.Event.Pieces
import Evlite.Event.Ticks

/-!
# When a Timer Expires

`evsets_dispatch` ticks at most once in each call, when the clock has reached `expire_time`,
and then sets `expire_time` to one precision after the reading. However unevenly it is
called, two ticks are therefore at least one precision apart.

The time is a part of the state here and advances by any amount between two inputs. A call
made by a callback is an input of its own, so a timer can be armed between any two of them.

## Main results

- `evsetsDispatch_clocked`: `evsets_dispatch` is a sequence of such inputs.
- `NotBefore.step`: what is known of a pending timer while the time goes on.
- `timer_not_early`: no timer expires two precisions early, or earlier.
-/

namespace Evlite

/-! ## An event set and the time -/

/-- An event set, and what the clock shows. -/
structure Clocked (κ : Type) where
  set : EventSet κ
  now : Int

/-- The inputs of an event set under a clock. -/
inductive ClockInput (κ : Type) where
  /-- A call, by a callback or from elsewhere. -/
  | op (op : EventOp κ)
  /-- The poller reports an event. -/
  | report (ev : Nat) (res : EvMask)
  /-- `evsets_dispatch` looks at the clock, and ticks if it is time. -/
  | timer
  /-- `evsets_process_active` takes the first active event and calls its callback. -/
  | take
  /-- Time passes. -/
  | wait (msecs : Nat)
deriving DecidableEq, Repr

/-- The input gives the event `ev` a timeout of its own. -/
def ClockInput.Rearms {κ : Type} (ev : Nat) : ClockInput κ → Prop
  | .op (.add a tv _) => a = ev ∧ 0 ≤ tv
  | _ => False

instance {κ : Type} (ev : Nat) : (i : ClockInput κ) → Decidable (i.Rearms ev)
  | .op (.add a tv _) => inferInstanceAs (Decidable (a = ev ∧ 0 ≤ tv))
  | .op (.del ..) | .op (.set ..) | .op (.setCallback ..) | .op (.reset ..) | .op (.destroy ..)
  | .report .. | .timer | .take | .wait .. => inferInstanceAs (Decidable False)

namespace Clocked

variable {κ : Type}

/-- The part of `evsets_dispatch` that looks at the clock. -/
def checkTimer (s : EventSet κ) (now : Int) : EventSet κ :=
  if s.expireTime ≤ now then { s.evtimerDispatch.1 with expireTime := now + s.timerPrecision } else s

/-- One input. -/
def step (s : Clocked κ) : ClockInput κ → Option (Clocked κ)
  | .op op => some { s with set := s.set.runOp op }
  | .report ev res => some { s with set := s.set.pollReport ev res }
  | .timer => some { s with set := checkTimer s.set s.now }
  | .take => (s.set.move .take).map fun set => { s with set := set }
  | .wait msecs => some { s with now := s.now + msecs }

/-- A new event set whose wheel has `N` buckets; `evsets_create` takes
`TIMER_BUCKET_COUNT` of them. -/
def create (precision : Int) (N : Nat) (now : Int) : Clocked κ where
  set := { (EventSet.evsetsCreate precision now : EventSet κ) with
    coreTimer := { bucketCount := N, maxPrecision := precision } }
  now := now

/-- There is a run from one state to another. -/
def Leads (s t : Clocked κ) : Prop := ∃ is, Lib.Run step s is t

theorem Leads.refl (s : Clocked κ) : s.Leads s := ⟨[], .nil s⟩

theorem Leads.trans {s t u : Clocked κ} (h₁ : s.Leads t) (h₂ : t.Leads u) : s.Leads u := by
  obtain ⟨is, h₁⟩ := h₁
  obtain ⟨js, h₂⟩ := h₂
  exact ⟨is ++ js, h₁.append h₂⟩

theorem Leads.single {s t : Clocked κ} (i : ClockInput κ) (h : s.step i = some t) : s.Leads t :=
  ⟨[i], .snoc (.nil s) trivial h⟩

end Clocked

namespace EventSet

variable {κ : Type}

/-! ## evsets_dispatch -/

theorem reports_clocked (s : EventSet κ) (now : Int) (reports : List (Nat × EvMask)) :
    Clocked.Leads ⟨s, now⟩ ⟨reports.foldl (fun s r => s.pollReport r.1 r.2) s, now⟩ := by
  induction reports generalizing s with
  | nil => exact .refl _
  | cons r rs ih => exact (Clocked.Leads.single (.report r.1 r.2) rfl).trans (ih _)

theorem runOps_clocked (s : EventSet κ) (now : Int) (ops : List (EventOp κ)) :
    Clocked.Leads ⟨s, now⟩ ⟨s.runOps ops, now⟩ := by
  induction ops generalizing s with
  | nil => exact .refl _
  | cons op ops ih => exact (Clocked.Leads.single (.op op) rfl).trans (ih _)

theorem processActiveLoop_clocked (now : Int) (fuel : Nat) (callbacks : List (List (EventOp κ)))
    (s : EventSet κ) (rc : Int) :
    Clocked.Leads ⟨s, now⟩ ⟨(processActiveLoop fuel callbacks s rc).1, now⟩ := by
  induction fuel generalizing callbacks s rc with
  | zero => exact .refl _
  | succ fuel ih =>
    unfold processActiveLoop
    split
    · exact .refl _
    · rename_i ev rest hactive
      have htake : Clocked.step ⟨s, now⟩ .take = some ⟨(s.beforeCallback ev).emit
          (.invoke ev ((s.beforeCallback ev).event ev).results), now⟩ := by
        simp only [Clocked.step, move, hactive, Option.map_some]
      exact ((Clocked.Leads.single .take htake).trans (runOps_clocked _ now _)).trans (ih _ _ _)

/-- One call of `evsets_dispatch` that reads the time `now` is a sequence of inputs, from any
time before. -/
theorem evsetsDispatch_clocked (s : EventSet κ) {before now : Int} (hle : before ≤ now)
    (reports : List (Nat × EvMask)) (callbacks : List (List (EventOp κ))) :
    Clocked.Leads ⟨s, before⟩ ⟨(s.evsetsDispatch reports now callbacks).1, now⟩ := by
  have hwait : Clocked.step ⟨s, before⟩ (.wait (now - before).toNat) = some ⟨s, now⟩ := by
    -- the time that passed since the last call, which may be none
    have htime : before + ((now - before).toNat : Int) = now := by omega
    rw [Clocked.step, htime]
  refine ((Clocked.Leads.single _ hwait).trans (reports_clocked s now reports)).trans ?_
  exact (Clocked.Leads.single .timer rfl).trans (processActiveLoop_clocked now _ _ _ _)

/-! ## What a piece does to one event -/

theorem insert_sameTimer (s : EventSet κ) (ev : Nat) {type : QueueType} (h : type ≠ .timer) (a : Nat) :
    SameTimer (s.event a) ((s.eventQueueInsert ev type).event a) := by
  by_cases ha : a = ev
  · subst ha
    unfold eventQueueInsert
    split
    · exact .of_eq rfl
    · cases type with
      | timer => exact absurd rfl h
      | inserted => constructor <;> simp [setStatus]
      | active => constructor <;> simp [setStatus]
  · exact .of_eq ((eventQueueInsert_only s ev type).event a ha)

theorem remove_sameTimer (s : EventSet κ) (ev : Nat) {type : QueueType} (h : type ≠ .timer) (a : Nat) :
    SameTimer (s.event a) ((s.eventQueueRemove ev type).event a) := by
  by_cases ha : a = ev
  · subst ha
    unfold eventQueueRemove
    split
    · cases type with
      | timer => exact absurd rfl h
      | inserted => constructor <;> simp [setStatus]
      | active => constructor <;> simp [setStatus]
    · exact .of_eq rfl
  · exact .of_eq ((eventQueueRemove_only s ev type).event a ha)

/-- What a piece can do to the timer of an event whose timeout is not set. -/
inductive Fate (arms : Nat → Prop) (s t : EventSet κ) (ev : Nat) : Prop where
  | same (h : SameTimer (s.event ev) (t.event ev))
  | out (htimer : (t.event ev).timer = false)
      (hmsecs : (t.event ev).timerMsecs = (s.event ev).timerMsecs ∨ (t.event ev).timerMsecs < 0)
  | armed (harms : arms ev) (hsets : (s.event ev).evsets = true)
      (hmsecs : 0 ≤ (s.event ev).timerMsecs) (hfree : (s.event ev).timer = false)
      (ht : t = s.eventQueueInsert ev .timer)

theorem Piece.fate {arms : Nat → Prop} {sets : Nat → Int → Prop} {s t : EventSet κ}
    (h : Piece arms sets s t) (ev : Nat) (hsets : ∀ tv, ¬sets ev tv) : Fate arms s t ev := by
  cases h with
  | emit e => exact .same (.of_eq rfl)
  | remove a type =>
    by_cases htype : type = .timer
    · subst htype
      by_cases ha : ev = a
      · subst ha
        have hview := eventQueueRemove_self s ev .timer
        -- the timeout is kept for the next arming
        exact .out (by rw [hview]; rfl) (.inl (by rw [hview]; rfl))
      · exact .same (.of_eq ((eventQueueRemove_only s a .timer).event ev ha))
    · exact .same (remove_sameTimer s a htype ev)
  | list a type htype => exact .same (insert_sameTimer s a htype ev)
  | arm a harms hset hmsecs =>
    by_cases ha : ev = a
    · subst ha
      by_cases hpending : (s.event ev).timer = true
      · -- the event is in the wheel already
        have hsame : s.eventQueueInsert ev .timer = s := if_pos hpending
        rw [hsame]
        exact .same (.of_eq rfl)
      · exact .armed harms hset hmsecs (by simpa using hpending) rfl
    · exact .same (.of_eq ((eventQueueInsert_only s a .timer).event ev ha))
  | setMsecs a tv hset =>
    -- another event, by the hypothesis on `sets`
    have ha : ev ≠ a := fun heq => hsets tv (heq ▸ hset)
    exact .same (.of_eq (by rw [modify_event, if_neg ha]))
  | change a f hf =>
    by_cases ha : ev = a
    · subst ha
      obtain ⟨-, htimer, -, hindex, hstep, hmsecs, -⟩ := hf (s.event ev)
      exact .same (by constructor <;> simpa)
    · exact .same (.of_eq (by rw [modify_event, if_neg ha]))
  | clear a l =>
    by_cases ha : ev = a
    · -- a blank event has a negative timeout
      subst ha
      exact .out (by simp) (.inr (by simp))
    · exact .same (.of_eq (by rw [modify_event, if_neg ha]))

/-- Pieces leave the settings of the wheel and the deadline of the next tick alone. -/
theorem Piece.settings {arms : Nat → Prop} {sets : Nat → Int → Prop} {s t : EventSet κ}
    (h : Piece arms sets s t) : t.settings = s.settings ∧ t.expireTime = s.expireTime ∧
      t.timerPrecision = s.timerPrecision := by
  have hexpire : Blind (expireTime : EventSet κ → Int) :=
    ⟨fun _ _ _ _ => rfl, fun _ _ _ => rfl, fun _ _ _ => rfl⟩
  have hprecision : Blind (timerPrecision : EventSet κ → Int) :=
    ⟨fun _ _ _ _ => rfl, fun _ _ _ => rfl, fun _ _ _ => rfl⟩
  cases h with
  | emit e => exact ⟨rfl, rfl, rfl⟩
  | remove ev type =>
    exact ⟨settings_blind.remove s ev type, hexpire.remove s ev type, hprecision.remove s ev type⟩
  | list ev type =>
    exact ⟨settings_blind.insert s ev type, hexpire.insert s ev type, hprecision.insert s ev type⟩
  | arm ev =>
    exact ⟨settings_blind.insert s ev .timer, hexpire.insert s ev .timer, hprecision.insert s ev .timer⟩
  | setMsecs ev tv => exact ⟨rfl, rfl, rfl⟩
  | change ev f hf => exact ⟨rfl, rfl, rfl⟩
  | clear ev l => exact ⟨rfl, rfl, rfl⟩

/-- An input that does not look at the clock is a sequence of pieces. -/
theorem Clocked.step_pieces {arms : Nat → Prop} {sets : Nat → Int → Prop} {s t : Clocked κ}
    {i : ClockInput κ} (hs : s.set.Consistent) (hi : i ≠ .timer) (hstep : s.step i = some t)
    (hop : ∀ op a tv, i = .op op → EventOp.Arms op a tv → arms a ∧ sets a tv)
    (htake : ∀ a, Rearms s.set a → arms a) : Pieces arms sets s.set t.set := by
  cases i with
  | op op =>
    cases hstep
    exact runOp_pieces hs op fun a tv => hop op a tv rfl
  | report a res =>
    cases hstep
    exact pollReport_pieces hs a res
  | timer => exact absurd rfl hi
  | take =>
    unfold Clocked.step move at hstep
    cases hactive : s.set.activelist with
    | nil => simp [hactive] at hstep
    | cons a rest =>
      simp only [hactive, Option.map_some, Option.some.injEq] at hstep
      have hmem : a ∈ s.set.activelist := hactive ▸ List.mem_cons_self
      rw [← hstep]
      exact take_pieces (hs.of_mem_activelist hmem).2 (htake a) _
  | wait msecs =>
    cases hstep
    exact .refl

theorem Clocked.step_now {s t : Clocked κ} {i : ClockInput κ} (hstep : s.step i = some t) :
    s.now ≤ t.now := by
  cases i with
  | wait msecs =>
    cases hstep
    show s.now ≤ s.now + msecs
    omega
  | take =>
    obtain ⟨u, -, rfl⟩ := Option.map_eq_some_iff.mp hstep
    exact Int.le_refl _
  | _ =>
    cases hstep
    exact Int.le_refl _

/-! ## A pending timer and the time -/

/-- A change that leaves the event as it is. -/
theorem modify_eq_self {s : EventSet κ} {ev : Nat} {f : Event κ → Event κ}
    (h : f (s.event ev) = s.event ev) : s.modify ev f = s := by
  rw [EventSet.modify, h, Function.update_eq_self]

/-- An event that `evtimer_append` puts into the wheel waits for at least the ticks meant. -/
theorem insert_due {s : EventSet κ} {ev tv p : Nat} (hN : s.TwoPower) (hp : 0 < p)
    (hprecision : s.coreTimer.maxPrecision = p) (hsets : (s.event ev).evsets = true)
    (hfree : (s.event ev).timer = false) (hmsecs : (s.event ev).timerMsecs = tv) :
    ∃ n, Due (s.eventQueueInsert ev .timer) ev n ∧ meantTick p tv ≤ n + 1 := by
  obtain ⟨n, hdue, hn⟩ := arm_due s tv hN hp hprecision hfree
  -- the timeout is set already, so that arming is no more than the insertion
  have harm : s.arm ev tv = s.eventQueueInsert ev .timer := by
    have hsame : s.modify ev (fun e => { e with evsets := true, timerMsecs := tv }) = s := by
      apply modify_eq_self
      rw [← hmsecs, ← hsets]
    rw [EventSet.arm, hsame]
  rw [harm] at hdue
  exact ⟨n, hdue, by omega⟩

/-- What is known of the event `ev` after it was armed for `tv` at the time `armed`: while it
is pending, the tick that lets it expire is not before `bound`. -/
structure NotBefore (p N : Nat) (armed bound : Int) (ev tv : Nat) (s : Clocked κ) : Prop where
  turning : Turning p N s.set
  precision : s.set.timerPrecision = p
  passed : armed ≤ s.now
  msecs : (s.set.event ev).timerMsecs = tv ∨ (s.set.event ev).timerMsecs < 0
  pending : (s.set.event ev).timer = true →
    ∃ n : Nat, Due s.set ev n ∧ bound ≤ max s.now s.set.expireTime + n * p

section

variable {p N : Nat} {armed bound : Int} {ev tv : Nat}

/-- A piece of a move at the time `now`. -/
theorem NotBefore.piece {arms : Nat → Prop} {sets : Nat → Int → Prop} {s t : EventSet κ} {now : Int}
    (h : NotBefore p N armed bound ev tv ⟨s, now⟩) (hp : 0 < p) (hN : ∃ k ≤ 31, N = 2 ^ k)
    (hbound : bound = armed + (meantTick p tv - 1) * p) (hsets : ∀ u, ¬sets ev u)
    (hpiece : Piece arms sets s t) : NotBefore p N armed bound ev tv ⟨t, now⟩ := by
  obtain ⟨hsettings, hexpire, hprecision⟩ := hpiece.settings
  have hturning : Turning p N t :=
    h.turning.of_settings (hpiece.consistent h.turning.consistent) hsettings
  refine ⟨hturning, hprecision.trans h.precision, h.passed, ?_, ?_⟩
  · show (t.event ev).timerMsecs = tv ∨ (t.event ev).timerMsecs < 0
    have hmsecs : (s.event ev).timerMsecs = tv ∨ (s.event ev).timerMsecs < 0 := h.msecs
    cases hpiece.fate ev hsets with
    | same hsame => rwa [hsame.msecs]
    | out _ hout =>
      rcases hout with hkept | hnone
      · rwa [hkept]
      · exact .inr hnone
    | armed _ _ _ _ ht =>
      have hview : (t.event ev).toEventView = setBit (s.event ev).toEventView true .timer := by
        rw [ht]
        exact eventQueueInsert_self s ev .timer
      rw [hview]
      exact hmsecs
  · intro hpending
    show ∃ n : Nat, Due t ev n ∧ bound ≤ max now t.expireTime + n * p
    rw [hexpire]
    cases hpiece.fate ev hsets with
    | same hsame =>
      obtain ⟨n, hdue, hle⟩ := h.pending (hsame.timer.symm.trans hpending)
      exact ⟨n, hdue.sameTimer hsame hsettings, hle⟩
    | out htimer =>
      rw [htimer] at hpending
      cases hpending
    | armed _ hset hlow hfree ht =>
      -- the event is armed again, later than before
      have hpassed : armed ≤ now := h.passed
      have hmsecs : (s.event ev).timerMsecs = tv := by
        rcases h.msecs with heq | hneg
        · exact heq
        · exact absurd hneg (Int.not_lt.mpr hlow)
      obtain ⟨n, hdue, hn⟩ := insert_due (h.turning.twoPower hN) hp h.turning.precision hset hfree hmsecs
      refine ⟨n, ht ▸ hdue, ?_⟩
      have hmul : ((meantTick p tv : Int) - 1) * p ≤ n * p :=
        Int.mul_le_mul_of_nonneg_right (by omega) (by omega)
      omega

/-- A sequence of pieces at the time `now`. -/
theorem NotBefore.pieces {arms : Nat → Prop} {sets : Nat → Int → Prop} {s t : EventSet κ} {now : Int}
    (h : NotBefore p N armed bound ev tv ⟨s, now⟩) (hp : 0 < p) (hN : ∃ k ≤ 31, N = 2 ^ k)
    (hbound : bound = armed + (meantTick p tv - 1) * p) (hsets : ∀ u, ¬sets ev u)
    (hpieces : Pieces arms sets s t) : NotBefore p N armed bound ev tv ⟨t, now⟩ :=
  (hpieces.invariant (I := fun u => NotBefore p N armed bound ev tv ⟨u, now⟩) h.turning.consistent h
    fun _ _ _ hu hpiece => hu.piece hp hN hbound hsets hpiece).2

/-! ## Ticks -/

/-- The precision of the set, and the timeouts of its events. -/
def timeoutsSet (s : EventSet κ) : Int × (Nat → Int) := (s.timerPrecision, fun a => (s.view a).timerMsecs)

/-- What the timeouts of the events are read from. -/
theorem timeoutsSet_of_view {s t : EventSet κ} {a : Nat} {e : EventView κ}
    (hprecision : t.timerPrecision = s.timerPrecision) (hview : t.view = Function.update s.view a e)
    (he : e.timerMsecs = (s.view a).timerMsecs) : t.timeoutsSet = s.timeoutsSet := by
  refine Prod.ext hprecision (funext fun b => ?_)
  show (t.view b).timerMsecs = (s.view b).timerMsecs
  rw [hview, Function.update_apply]
  split
  · rename_i hb
    rw [hb, he]
  · rfl

theorem eventActive_timeoutsSet (s : EventSet κ) (a : Nat) (res : EvMask) :
    (s.eventActive a res).timeoutsSet = s.timeoutsSet := by
  apply timeoutsSet_of_view (e := (s.view a).eventActive res)
  · unfold eventActive
    dsimp only
    split
    · rfl
    · unfold eventQueueInsert
      split <;> rfl
  · exact eventActive_view s a res
  · unfold EventView.eventActive
    split <;> rfl

theorem evtimerDispatchOne_timeoutsSet (s : EventSet κ) (b a : Nat) (rc : Int) :
    (s.evtimerDispatchOne b a rc).1.timeoutsSet = s.timeoutsSet := by
  have hcount : (s.modify a fun e => { e with timerStepcnt := e.timerStepcnt - 1 }).timeoutsSet =
      s.timeoutsSet :=
    timeoutsSet_of_view rfl (modify_view s a _) rfl
  have hremove : ∀ u : EventSet κ,
      ((u.evtimerRemove a).setStatus a .timer false).timeoutsSet = u.timeoutsSet := by
    intro u
    apply timeoutsSet_of_view (e := setBit (u.view a) false .timer)
    · show (u.evtimerRemove a).timerPrecision = _
      unfold evtimerRemove
      dsimp only
      split <;> rfl
    · rw [setStatus_view, evtimerRemove_view]
    · rfl
  unfold evtimerDispatchOne
  dsimp only
  split
  · exact hcount
  · split
    · rw [eventActive_timeoutsSet, hremove, hcount]
    · rw [hremove, hcount]

/-- A tick sets no timeout. -/
theorem evtimerDispatch_timeoutsSet (s : EventSet κ) :
    s.evtimerDispatch.1.timeoutsSet = s.timeoutsSet := by
  have hloop : ∀ b laster fuel (u : EventSet κ) rc,
      (evtimerDispatchLoop b laster fuel u rc).1.timeoutsSet = u.timeoutsSet := by
    intro b laster fuel
    induction fuel with
    | zero => exact fun u rc => rfl
    | succ fuel ih =>
      intro u rc
      unfold evtimerDispatchLoop
      split
      · rfl
      · rename_i a rest _
        have hone := evtimerDispatchOne_timeoutsSet u b a rc
        dsimp only
        split
        · exact hone
        · exact (ih _ _).trans hone
  unfold evtimerDispatch
  dsimp only
  split
  · rfl
  · exact hloop _ _ _ _ _

/-- A check of the clock. -/
theorem NotBefore.checkTimer {s : Clocked κ} (h : NotBefore p N armed bound ev tv s)
    (hN : ∃ k ≤ 31, N = 2 ^ k) :
    NotBefore p N armed bound ev tv { s with set := Clocked.checkTimer s.set s.now } := by
  unfold Clocked.checkTimer
  split
  · rename_i hdue
    have hpower : s.set.TwoPower := h.turning.twoPower hN
    obtain ⟨hcons, hbuckets, hmax⟩ := h.turning.step (i := .dispatch) rfl
    have hset := evtimerDispatch_timeoutsSet s.set
    have hprecision : s.set.evtimerDispatch.1.timerPrecision = s.set.timerPrecision :=
      congrArg Prod.fst hset
    have hmsecs : (s.set.evtimerDispatch.1.event ev).timerMsecs = (s.set.event ev).timerMsecs :=
      congrFun (congrArg Prod.snd hset) ev
    refine ⟨⟨?_, hbuckets, hmax⟩, hprecision.trans h.precision, h.passed, ?_, fun hpending => ?_⟩
    · exact hcons.of_lists rfl rfl rfl rfl rfl
    · show (s.set.evtimerDispatch.1.event ev).timerMsecs = tv ∨ _ < 0
      rw [hmsecs]
      exact h.msecs
    · have hstill : (s.set.evtimerDispatch.1.event ev).timer = true := hpending
      cases htimer : (s.set.event ev).timer with
      | false =>
        -- a tick puts nothing into the wheel
        rw [(evtimerDispatch_absent h.turning.consistent htimer).1, htimer] at hstill
        cases hstill
      | true =>
        obtain ⟨n, hwait, hle⟩ := h.pending htimer
        obtain ⟨hlast, hmore⟩ := evtimerDispatch_counts h.turning.consistent hpower hwait
        rcases Nat.eq_zero_or_pos n with hzero | hpos
        · rw [(hlast hzero).1] at hstill
          cases hstill
        · obtain ⟨m, rfl⟩ : ∃ m, n = m + 1 := ⟨n - 1, by omega⟩
          refine ⟨m, ⟨hstill, (hmore m rfl).1.rest⟩, ?_⟩
          -- the next tick is at least one precision after this one
          show bound ≤ max s.now (s.now + s.set.timerPrecision) + m * p
          rw [h.precision]
          have hsplit : ((m + 1 : Nat) : Int) * p = m * p + p := by
            rw [Int.natCast_add, Int.add_mul]
            simp
          rw [hsplit] at hle
          omega
  · exact h

/-! ## Runs -/

/-- The time goes on. -/
theorem NotBefore.later {s : EventSet κ} {now now' : Int} (h : NotBefore p N armed bound ev tv ⟨s, now⟩)
    (hle : now ≤ now') : NotBefore p N armed bound ev tv ⟨s, now'⟩ := by
  refine ⟨h.turning, h.precision, h.passed.trans hle, h.msecs, fun hpending => ?_⟩
  obtain ⟨n, hdue, hbound⟩ := h.pending hpending
  refine ⟨n, hdue, ?_⟩
  have hbound' : bound ≤ max now s.expireTime + n * p := hbound
  show bound ≤ max now' s.expireTime + n * p
  omega

theorem NotBefore.step {s t : Clocked κ} {i : ClockInput κ} (h : NotBefore p N armed bound ev tv s)
    (hp : 0 < p) (hN : ∃ k ≤ 31, N = 2 ^ k) (hbound : bound = armed + (meantTick p tv - 1) * p)
    (hkeep : ¬i.Rearms ev) (hstep : s.step i = some t) : NotBefore p N armed bound ev tv t := by
  by_cases hi : i = .timer
  · subst hi
    cases hstep
    exact h.checkTimer hN
  · have hpieces : Pieces (fun _ => True) (fun a _ => a ≠ ev) s.set t.set := by
      refine Clocked.step_pieces h.turning.consistent hi hstep (fun op a u hop harms => ⟨trivial, ?_⟩)
        fun _ _ => trivial
      rintro rfl
      subst hop
      -- only `evsets_add` arms an event
      cases op with
      | add b w _ =>
        obtain ⟨rfl, -, hw⟩ := harms
        exact hkeep ⟨rfl, hw⟩
      | _ => exact harms
    exact (h.pieces hp hN hbound (fun _ hne => hne rfl) hpieces).later (Clocked.step_now hstep)

/-- An input that activates the event with `EV_TIMEOUT` is a tick at a time when it is due. -/
theorem NotBefore.fires {s t : Clocked κ} {i : ClockInput κ} (h : NotBefore p N armed bound ev tv s)
    (hN : ∃ k ≤ 31, N = 2 ^ k) (hstep : s.step i = some t)
    (hfires : t.set.timeouts ev ≠ s.set.timeouts ev) : bound ≤ t.now := by
  -- only a tick activates an event with `EV_TIMEOUT`
  cases i with
  | op op =>
    cases hstep
    exact absurd (timeouts_congr (runOp_trace s.set op) ev) hfires
  | report a res =>
    cases hstep
    refine absurd ?_ hfires
    show (s.set.pollReport a res).timeouts ev = _
    unfold pollReport
    split
    · rw [timeouts, timeouts, eventActive_trace, List.countP_append]
      simp
    · rfl
  | timer =>
    cases hstep
    have hpower : s.set.TwoPower := h.turning.twoPower hN
    have hset : (Clocked.checkTimer s.set s.now).timeouts ev ≠ s.set.timeouts ev := hfires
    unfold Clocked.checkTimer at hset
    split at hset
    · rename_i hdue
      have hticked : s.set.evtimerDispatch.1.timeouts ev ≠ s.set.timeouts ev := hset
      cases htimer : (s.set.event ev).timer with
      | false => exact absurd (evtimerDispatch_absent h.turning.consistent htimer).2 hticked
      | true =>
        obtain ⟨n, hwait, hle⟩ := h.pending htimer
        obtain ⟨-, hmore⟩ := evtimerDispatch_counts h.turning.consistent hpower hwait
        rcases Nat.eq_zero_or_pos n with rfl | hpos
        · -- it was the last tick to wait for, and `expire_time` has come
          show bound ≤ s.now
          rw [Int.natCast_zero, Int.zero_mul] at hle
          omega
        · exact absurd (hmore (n - 1) (by omega)).2 hticked
    · exact absurd rfl hset
  | take =>
    unfold Clocked.step move at hstep
    cases hactive : s.set.activelist with
    | nil => simp [hactive] at hstep
    | cons a rest =>
      simp only [hactive, Option.map_some, Option.some.injEq] at hstep
      refine absurd ?_ hfires
      rw [← hstep, timeouts, timeouts, EventSet.emit, beforeCallback_trace, List.countP_append]
      simp
  | wait msecs =>
    cases hstep
    exact absurd rfl hfires

end

/-! ## Main result -/

/-- What pieces leave of the settings. -/
theorem Pieces.turning {arms : Nat → Prop} {sets : Nat → Int → Prop} {s t : EventSet κ} {p N : Nat}
    (hpieces : Pieces arms sets s t) (h : Turning p N s ∧ s.timerPrecision = p) :
    Turning p N t ∧ t.timerPrecision = p :=
  (hpieces.invariant (I := fun u => Turning p N u ∧ u.timerPrecision = p) h.1.consistent h
    fun _ _ hu hgood hpiece => by
      obtain ⟨hsettings, -, hprecision⟩ := hpiece.settings
      exact ⟨hgood.1.of_settings (hpiece.consistent hu) hsettings, hprecision.trans hgood.2⟩).2

/-- What a set under a clock keeps from its creation on. -/
theorem Clocked.turning {p N : Nat} {s t : Clocked κ} {i : ClockInput κ}
    (h : Turning p N s.set ∧ s.set.timerPrecision = p) (hstep : s.step i = some t) :
    Turning p N t.set ∧ t.set.timerPrecision = p := by
  by_cases hi : i = .timer
  · subst hi
    cases hstep
    show Turning p N (Clocked.checkTimer s.set s.now) ∧ _
    unfold Clocked.checkTimer
    split
    · obtain ⟨hcons, hbuckets, hmax⟩ := h.1.step (i := .dispatch) rfl
      refine ⟨⟨hcons.of_lists rfl rfl rfl rfl rfl, hbuckets, hmax⟩, ?_⟩
      exact (congrArg Prod.fst (evtimerDispatch_timeoutsSet s.set)).trans h.2
    · exact h
  · have hpieces : Pieces (fun _ => True) (fun _ _ => True) s.set t.set :=
      Clocked.step_pieces h.1.consistent hi hstep (fun _ _ _ _ _ => ⟨trivial, trivial⟩)
        fun _ _ => trivial
    exact Pieces.turning hpieces h

theorem Clocked.create_turning {p N : Nat} (hpos : 1 ≤ N) (hfits : N ≤ 2 ^ 32) (now : Int) :
    Turning p N (Clocked.create p N now : Clocked κ).set := by
  refine ⟨⟨fun a => ⟨rfl, rfl, fun b => rfl, ?_, ?_⟩, hpos, hfits⟩, rfl, rfl⟩
  · intro h
    cases h
  · intro h
    cases h

/-- The state right after `evsets_add` armed a timer. -/
theorem NotBefore.ofAdd {p N : Nat} {s : Clocked κ} (hp : 0 < p) (hN : ∃ k ≤ 31, N = 2 ^ k)
    (h : Turning p N s.set ∧ s.set.timerPrecision = p) (ev tv : Nat) (pollAdd : Bool) :
    NotBefore p N s.now (s.now + (meantTick p tv - 1) * p) ev tv
      { s with set := (s.set.evsetsAdd ev tv pollAdd).1 } := by
  obtain ⟨u, hpieces, husets, hfree, hmsecs, hadd⟩ :=
    @evsetsAdd_armed κ s.set (fun _ => True) (fun _ _ => True) ev tv (Int.natCast_nonneg tv) pollAdd
      trivial
  have hu : Turning p N u ∧ u.timerPrecision = p := Pieces.turning hpieces h
  have harm : Piece (fun _ => True) (fun _ _ => True) u (u.eventQueueInsert ev .timer) :=
    .arm ev trivial husets (by rw [hmsecs]; exact Int.natCast_nonneg tv)
  obtain ⟨hturning, hprecision⟩ := Pieces.turning (Pieces.single harm) hu
  have hpower : u.TwoPower := hu.1.twoPower hN
  rw [hadd]
  refine ⟨hturning, hprecision, Int.le_refl _, .inl ?_, fun _ => ?_⟩
  · show ((u.eventQueueInsert ev .timer).view ev).timerMsecs = tv
    rw [eventQueueInsert_view, Function.update_self]
    exact hmsecs
  · obtain ⟨n, hdue, hn⟩ := insert_due hpower hp hu.1.precision husets hfree hmsecs
    refine ⟨n, hdue, ?_⟩
    have hmul : ((meantTick p tv : Int) - 1) * p ≤ n * p :=
      Int.mul_le_mul_of_nonneg_right (by omega) (by omega)
    show s.now + _ ≤ max s.now (u.eventQueueInsert ev .timer).expireTime + n * p
    omega

/-- Whole precisions fill a timeout but for less than one. -/
theorem meantTick_covers {p : Nat} (hp : 0 < p) (tv : Nat) :
    (tv : Int) < (meantTick p tv - 1) * p + 2 * p := by
  have hrest := Nat.lt_div_mul_add hp (a := tv)
  have hle : tv / p * p ≤ meantTick p tv * p := Nat.mul_le_mul_right p (Nat.le_max_right 1 _)
  have hcast : (tv : Int) < meantTick p tv * p + p := by
    have hnat : tv < meantTick p tv * p + p := by omega
    exact_mod_cast hnat
  rw [Int.sub_mul]
  omega

/-- Take any run of an event set with the precision `p`, however unevenly the time passes in
it, that adds the event `ev` with a timeout `tv` at some time, and any continuation that does
not add the event with another timeout. If an input activates it with `EV_TIMEOUT`, then it
does so not before `max 1 (tv / p) - 1` precisions have passed, so less than two precisions
before its time. -/
theorem timer_not_early (p k : Nat) (hp : 0 < p) (hfits : p * 2 ^ k < 2 ^ 31) (start : Int)
    (is : List (ClockInput κ)) (s : Clocked κ)
    (hrun : Lib.Run Clocked.step (Clocked.create p (2 ^ k) start) is s) (ev tv : Nat)
    (pollAdd : Bool) (hcb : (s.set.event ev).cb.isSome) (armed : Clocked κ)
    (hadd : s.step (.op (.add ev tv pollAdd)) = some armed) (js : List (ClockInput κ)) (t : Clocked κ)
    (hjs : Lib.GuardedRun Clocked.step (fun _ i => ¬i.Rearms ev) armed js t) (i : ClockInput κ)
    (u : Clocked κ) (hstep : t.step i = some u)
    (hfires : u.set.timeouts ev ≠ t.set.timeouts ev) :
    s.now + (max 1 (tv / p) - 1 : Nat) * p ≤ u.now ∧ s.now + tv - 2 * p < u.now := by
  have hbound : 2 ^ k < 2 ^ 31 := Nat.lt_of_le_of_lt (Nat.le_mul_of_pos_left _ hp) hfits
  have hk : k ≤ 31 := Nat.le_of_lt ((Nat.pow_lt_pow_iff_right (by decide)).mp hbound)
  have hN : ∃ j ≤ 31, 2 ^ k = 2 ^ j := ⟨k, hk, rfl⟩
  have hturning : Turning p (2 ^ k) s.set ∧ s.set.timerPrecision = p :=
    hrun.invariant (I := fun s => Turning p (2 ^ k) s.set ∧ s.set.timerPrecision = (p : Int))
      ⟨Clocked.create_turning (Nat.two_pow_pos k) (by omega) start, rfl⟩
      fun _ _ _ h _ hs => Clocked.turning h hs
  have hstart : NotBefore p (2 ^ k) s.now (s.now + (meantTick p tv - 1) * p) ev tv armed := by
    have hop : s.set.runOp (.add ev tv pollAdd) = (s.set.evsetsAdd ev tv pollAdd).1 := if_pos hcb
    simp only [Clocked.step, hop, Option.some.injEq] at hadd
    rw [← hadd]
    exact NotBefore.ofAdd hp hN hturning ev tv pollAdd
  -- the bound is set at the time of the arming, and every later input keeps it
  have hlast := hjs.invariant (I := NotBefore p (2 ^ k) s.now (s.now + (meantTick p tv - 1) * p) ev tv)
    hstart fun _ _ _ h hne hs => h.step hp hN rfl hne hs
  have hle := hlast.fires hN hstep hfires
  have hcovers := meantTick_covers hp tv
  have hmeant : (((max 1 (tv / p) - 1 : Nat) : Int)) = (meantTick p tv : Int) - 1 := by
    have hone : 1 ≤ meantTick p tv := Nat.le_max_left 1 _
    show (((meantTick p tv) - 1 : Nat) : Int) = _
    omega
  rw [hmeant]
  exact ⟨hle, by omega⟩

/-- The loop stalls for a second, an event is added for 25 milliseconds, and ticks at uneven
times follow. -/
def stalledLoop : List (ClockInput Nat) := [.op (.setCallback 3 0), .wait 1000]

/-- The state in which the timer of 25 milliseconds expires. -/
def stalledLoopEnd : Clocked Nat :=
  ((Lib.exec Clocked.step (Clocked.create 10 (2 ^ 2) 0)
    (stalledLoop ++ [.op (.add 3 25 true), .timer, .wait 14])).getD (Clocked.create 10 (2 ^ 2) 0))

theorem timer_not_early_stalledLoop :
    ∃ s t : Clocked Nat, Lib.exec Clocked.step (Clocked.create 10 (2 ^ 2) 0) stalledLoop = some s ∧
      t.set.timeouts 3 = 1 ∧ s.now + (max 1 (25 / 10) - 1 : Nat) * 10 ≤ t.now ∧
      s.now + 25 - 2 * 10 < t.now :=
  ⟨⟨(Clocked.create 10 (2 ^ 2) 0).set.runOp (.setCallback 3 0), 1000⟩,
    { stalledLoopEnd with set := Clocked.checkTimer stalledLoopEnd.set stalledLoopEnd.now }, rfl,
    by decide +kernel,
    timer_not_early 10 2 (by decide) (by decide) 0 stalledLoop _ (Lib.run_iff_exec.mpr rfl) 3 25 true
      rfl _ rfl [.timer, .wait 14] stalledLoopEnd (Lib.GuardedRun.of_exec rfl) .timer _ rfl
      (by decide +kernel)⟩

end EventSet

end Evlite
