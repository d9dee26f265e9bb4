import Mathlib.Logic.Relation
import Evlite.Event.Timeout

/-!
# What a Move Does to the Wheel

Between two ticks the wheel changes in two ways only: an event is taken out of its bucket,
or `evtimer_append` puts one at the end of a bucket. Every move but a tick is a sequence of
pieces that show this, and each piece is easy to check against an invariant of the wheel.

`arms a` says that a move may call `evtimer_append` for the event `a`, and `sets a tv` that
it may set the timeout of `a` to `tv`.

## Main results

- `Piece.consistent`: every piece keeps lists and bits consistent.
- `runOp_pieces`, `pollReport_pieces`, `take_pieces`: the moves are sequences of pieces.
- `Pieces.invariant`: the invariant rule.
-/

namespace Evlite.EventSet

variable {κ : Type} {s t : EventSet κ} {arms : Nat → Prop} {sets : Nat → Int → Prop}

/-! ## Pieces -/

/-- What a change of an event leaves alone, besides the bits and places of the lists. -/
def KeepsTimer (f : Event κ → Event κ) : Prop :=
  ∀ e, (f e).inserted = e.inserted ∧ (f e).timer = e.timer ∧ (f e).active = e.active ∧
    (f e).timerIndex = e.timerIndex ∧ (f e).timerStepcnt = e.timerStepcnt ∧
    (f e).timerMsecs = e.timerMsecs ∧ (e.evsets = true → (f e).evsets = true)

/-- The pieces of a move. -/
inductive Piece (arms : Nat → Prop) (sets : Nat → Int → Prop) (s : EventSet κ) :
    EventSet κ → Prop where
  | emit (e : EventEffect) : Piece arms sets s (s.emit e)
  | remove (ev : Nat) (type : QueueType) : Piece arms sets s (s.eventQueueRemove ev type)
  | list (ev : Nat) (type : QueueType) (htype : type ≠ .timer)
      (hsets : (s.event ev).evsets = true) : Piece arms sets s (s.eventQueueInsert ev type)
  | arm (ev : Nat) (harms : arms ev) (hsets : (s.event ev).evsets = true)
      (hmsecs : 0 ≤ (s.event ev).timerMsecs) : Piece arms sets s (s.eventQueueInsert ev .timer)
  | setMsecs (ev : Nat) (tv : Int) (h : sets ev tv) :
      Piece arms sets s (s.modify ev fun e => { e with timerMsecs := tv })
  | change (ev : Nat) (f : Event κ → Event κ) (hf : KeepsTimer f) : Piece arms sets s (s.modify ev f)
  | clear (ev : Nat) (l : Event κ → Option Int) (hfree : (s.event ev).linked = false) :
      Piece arms sets s (s.modify ev fun e => { lastAdd := l e })

/-- Sequences of pieces. -/
abbrev Pieces (arms : Nat → Prop) (sets : Nat → Int → Prop) : EventSet κ → EventSet κ → Prop :=
  Relation.ReflTransGen (Piece arms sets)

theorem Piece.consistent (h : Piece arms sets s t) (hs : s.Consistent) : t.Consistent := by
  cases h with
  | emit e => exact hs.emit e
  | remove ev type => exact hs.remove ev type
  | list ev type htype hsets => exact hs.insert type hsets fun h => absurd h htype
  | arm ev _ hsets hmsecs => exact hs.insert .timer hsets fun _ => hmsecs
  | setMsecs ev tv => exact hs.modify (by intro e; exact ⟨rfl, rfl, rfl, rfl, id⟩)
  | change ev f hf =>
    refine hs.modify fun e => ?_
    obtain ⟨hins, htimer, hactive, hindex, -, -, hsets⟩ := hf e
    exact ⟨hins, htimer, hactive, hindex, hsets⟩
  | clear ev l hfree => exact hs.clear hfree l

/-- What every piece keeps, a sequence of them keeps. The lists are consistent all along. -/
theorem Pieces.invariant {I : EventSet κ → Prop} (h : Pieces arms sets s t) (hs : s.Consistent)
    (hinit : I s) (hstep : ∀ u v, u.Consistent → I u → Piece arms sets u v → I v) :
    t.Consistent ∧ I t := by
  induction h with
  | refl => exact ⟨hs, hinit⟩
  | tail _ hpiece ih => exact ⟨hpiece.consistent ih.1, hstep _ _ ih.1 ih.2 hpiece⟩

theorem Pieces.single (h : Piece arms sets s t) : Pieces arms sets s t := Relation.ReflTransGen.single h

/-! ## The calls -/

theorem eventActive_pieces (ev : Nat) (res : EvMask) (hsets : (s.event ev).evsets = true) :
    Pieces arms sets s (s.eventActive ev res) := by
  have hemit : Pieces arms sets s (s.emit (.activate ev res (s.event ev).lastAdd)) :=
    .single (.emit _)
  unfold eventActive
  dsimp only
  refine hemit.trans ?_
  split
  · exact .single (.change ev _ (by intro e; exact ⟨rfl, rfl, rfl, rfl, rfl, rfl, id⟩))
  · refine (Pieces.single (.change ev (fun e => { e with results := res })
      (by intro e; exact ⟨rfl, rfl, rfl, rfl, rfl, rfl, id⟩))).trans ?_
    exact .single (.list ev .active (by decide) (by simpa using hsets))

theorem pollReport_pieces (h : s.Consistent) (ev : Nat) (res : EvMask) :
    Pieces arms sets s (s.pollReport ev res) := by
  unfold pollReport
  split
  · rename_i hins
    exact eventActive_pieces ev _ ((h.linked ev).sets (by simp [EventView.linked, hins]))
  · exact .refl

theorem evsetsDel_pieces (ev : Nat) (pollDel : Int) :
    Pieces arms sets s (s.evsetsDel ev pollDel).1 := by
  have hboth : Pieces arms sets s ((s.eventQueueRemove ev .timer).eventQueueRemove ev .active) :=
    (Pieces.single (.remove ev .timer)).trans (.single (.remove ev .active))
  unfold evsetsDel
  dsimp only
  split
  · exact hboth.trans (.single (.remove ev .inserted))
  · exact hboth

theorem addPoll_pieces (ev : Nat) (pollAdd : Bool) (hsets : (s.event ev).evsets = true) :
    Pieces arms sets s (s.addPoll ev pollAdd).1 := by
  unfold addPoll
  dsimp only
  split
  · split
    · exact .single (.list ev .inserted (by decide) hsets)
    · exact .refl
  · exact .refl

theorem addPoll_evsets (s : EventSet κ) (ev : Nat) (pollAdd : Bool) :
    ((s.addPoll ev pollAdd).1.event ev).evsets = (s.event ev).evsets := by
  unfold addPoll
  dsimp only
  split
  · split
    · exact eventQueueInsert_evsets s ev .inserted ev
    · rfl
  · rfl

/-- The last thing `evsets_add` does with a timeout is to put the event into the wheel, from
which it was taken out before. -/
theorem addTimer_armed (ev : Nat) {tv : Int} (htv : 0 ≤ tv) (hsets : (s.event ev).evsets = true)
    (hset : sets ev tv) : ∃ u : EventSet κ, Pieces arms sets s u ∧ (u.event ev).evsets = true ∧
      (u.event ev).timer = false ∧ (u.event ev).timerMsecs = tv ∧
      (s.addTimer ev tv).1 = u.eventQueueInsert ev .timer := by
  -- an activation that reports a timeout is withdrawn together with the timer
  have hdisarm : ∀ c : Bool, Pieces arms sets s
      (if c then (s.eventQueueRemove ev .timer).eventQueueRemove ev .active
        else s.eventQueueRemove ev .timer) ∧
      ((if c then (s.eventQueueRemove ev .timer).eventQueueRemove ev .active
        else s.eventQueueRemove ev .timer).event ev).evsets = true ∧
      ((if c then (s.eventQueueRemove ev .timer).eventQueueRemove ev .active
        else s.eventQueueRemove ev .timer).view ev).timer = false := by
    intro c
    cases c with
    | true =>
      refine ⟨(Pieces.single (.remove ev .timer)).trans (.single (.remove ev .active)), ?_, ?_⟩
      · rw [if_pos rfl, eventQueueRemove_evsets, eventQueueRemove_evsets, hsets]
      · rw [if_pos rfl, eventQueueRemove_view, Function.update_self, eventQueueRemove_view,
          Function.update_self]
        rfl
    | false =>
      refine ⟨.single (.remove ev .timer), ?_, ?_⟩
      · rw [if_neg Bool.false_ne_true, eventQueueRemove_evsets, hsets]
      · rw [if_neg Bool.false_ne_true, eventQueueRemove_view, Function.update_self]
        rfl
  obtain ⟨hpieces, hkept, hfree⟩ := hdisarm ((s.eventQueueRemove ev .timer).event ev).results.timeout
  unfold addTimer
  rw [if_pos htv]
  dsimp only
  generalize (if ((s.eventQueueRemove ev .timer).event ev).results.timeout then
      (s.eventQueueRemove ev .timer).eventQueueRemove ev .active
    else s.eventQueueRemove ev .timer) = u at hpieces hkept hfree
  refine ⟨_, hpieces.trans (.single (.setMsecs ev tv hset)), ?_, ?_, ?_, rfl⟩
  · simpa using hkept
  · have hclear : (u.event ev).timer = false := hfree
    simpa using hclear
  · simp

/-- Which event a call puts into the wheel, and with which timeout. -/
def EventOp.Arms : EventOp κ → Nat → Int → Prop
  | .add ev tv _, a, u => a = ev ∧ u = tv ∧ 0 ≤ tv
  | _, _, _ => False

/-- An event that `evsets_add` arms is out of the wheel right before. -/
theorem evsetsAdd_armed (ev : Nat) {tv : Int} (htv : 0 ≤ tv) (pollAdd : Bool) (hset : sets ev tv) :
    ∃ u : EventSet κ, Pieces arms sets s u ∧ (u.event ev).evsets = true ∧
      (u.event ev).timer = false ∧ (u.event ev).timerMsecs = tv ∧
      (s.evsetsAdd ev tv pollAdd).1 = u.eventQueueInsert ev .timer := by
  have hmark : Pieces arms sets s
      (s.modify ev fun e => { e with evsets := true, lastAdd := some tv }) :=
    .single (.change ev _ (by intro e; exact ⟨rfl, rfl, rfl, rfl, rfl, rfl, fun _ => rfl⟩))
  have hsets : ((s.modify ev fun e => { e with evsets := true, lastAdd := some tv }).event ev).evsets =
      true := by simp
  have hpoll : Pieces arms sets s _ := hmark.trans (addPoll_pieces ev pollAdd hsets)
  have hkept := (addPoll_evsets _ ev pollAdd).trans hsets
  obtain ⟨u, (hpieces : Pieces arms sets _ u), husets, hfree, hmsecs, hlast⟩ :=
    addTimer_armed ev htv hkept hset
  exact ⟨u, hpoll.trans hpieces, husets, hfree, hmsecs, hlast⟩

theorem evsetsAdd_pieces (ev : Nat) (tv : Int) (pollAdd : Bool)
    (harms : 0 ≤ tv → arms ev ∧ sets ev tv) :
    Pieces arms sets s (s.evsetsAdd ev tv pollAdd).1 := by
  by_cases htv : 0 ≤ tv
  · obtain ⟨harm, hset⟩ := harms htv
    obtain ⟨u, (hpieces : Pieces arms sets s u), hkept, -, hmsecs, hlast⟩ :=
      evsetsAdd_armed ev htv pollAdd hset
    rw [hlast]
    exact hpieces.trans (.single (.arm ev harm hkept (by rw [hmsecs]; exact htv)))
  · unfold evsetsAdd addTimer
    dsimp only
    rw [if_neg htv]
    have hmark : Pieces arms sets s
        (s.modify ev fun e => { e with evsets := true, lastAdd := some tv }) :=
      .single (.change ev _ (by intro e; exact ⟨rfl, rfl, rfl, rfl, rfl, rfl, fun _ => rfl⟩))
    exact hmark.trans (addPoll_pieces ev pollAdd (by simp))

/-- A call is a sequence of pieces. -/
theorem runOp_pieces (h : s.Consistent) (op : EventOp κ)
    (harms : ∀ a tv, EventOp.Arms op a tv → arms a ∧ sets a tv) : Pieces arms sets s (s.runOp op) := by
  cases op with
  | add ev tv pollAdd =>
    simp only [runOp]
    split
    · exact evsetsAdd_pieces ev tv pollAdd fun htv => harms ev tv ⟨rfl, rfl, htv⟩
    · exact .refl
  | del ev pollDel =>
    simp only [runOp]
    split
    · exact evsetsDel_pieces ev pollDel
    · exact .refl
  | set ev fd events =>
    simp only [runOp]
    exact .single (.change ev _ (by intro e; exact ⟨rfl, rfl, rfl, rfl, rfl, rfl, id⟩))
  | setCallback ev cb =>
    simp only [runOp]
    exact .single (.change ev _ (by intro e; exact ⟨rfl, rfl, rfl, rfl, rfl, rfl, id⟩))
  | reset ev pollDel =>
    simp only [runOp, eventReset]
    split
    · refine (evsetsDel_pieces ev pollDel).trans (.single (.clear ev (fun e => e.lastAdd) ?_))
      rw [evsetsDel_self]
      rfl
    · rename_i hsets
      -- an event that was never added is in no list
      exact .single (.clear ev (fun e => e.lastAdd)
        (Bool.eq_false_iff.mpr (mt (h.linked ev).sets hsets)))
  | destroy ev =>
    simp only [runOp]
    split
    · exact .refl
    · rename_i hfree
      exact .single (.clear ev (fun _ => none) (by simpa using hfree))

/-! ## Taking an active event -/

/-- `evsets_process_active` puts the event `ev` into the wheel again: it is persistent with a
timeout, and does not stay in the wheel after an activation that was a timeout. -/
def Rearms (s : EventSet κ) (ev : Nat) : Prop :=
  (s.event ev).events.persist = true ∧ 0 ≤ (s.event ev).timerMsecs ∧
    ¬((s.event ev).timer = true ∧ (s.event ev).results.timeout = true)

instance (s : EventSet κ) (ev : Nat) : Decidable (Rearms s ev) :=
  inferInstanceAs (Decidable (_ ∧ _ ∧ _))

/-- An event that is put into the wheel again is out of the wheel right before. -/
theorem take_armed {ev : Nat} (hsets : (s.event ev).evsets = true) (hrearms : Rearms s ev) :
    ∃ u : EventSet κ, Pieces arms sets s u ∧ (u.event ev).evsets = true ∧
      (u.event ev).timer = false ∧ 0 ≤ (u.event ev).timerMsecs ∧
      s.beforeCallback ev = u.eventQueueInsert ev .timer := by
  obtain ⟨hpersist, hmsecs, hnot⟩ := hrearms
  have hview := eventQueueRemove_self s ev .active
  have hkept : ((s.eventQueueRemove ev .active).event ev).evsets = true := by
    rw [eventQueueRemove_evsets, hsets]
  have htv : 0 ≤ ((s.eventQueueRemove ev .active).event ev).timerMsecs := by
    rw [hview]
    exact hmsecs
  have hfree : ((s.eventQueueRemove ev .active).event ev).results.timeout = true →
      ((s.eventQueueRemove ev .active).event ev).timer = false := by
    rw [hview]
    intro htimeout
    exact Bool.eq_false_iff.mpr fun htimer => hnot ⟨htimer, htimeout⟩
  have hfirst : Pieces arms sets s (s.eventQueueRemove ev .active) := .single (.remove ev .active)
  unfold beforeCallback
  rw [if_neg (by simp [hpersist])]
  dsimp only
  rw [if_pos htv]
  generalize s.eventQueueRemove ev .active = u at hkept htv hfree hfirst
  -- after a timeout the event is out already, otherwise it is taken out first
  cases htimeout : (u.event ev).results.timeout with
  | true => exact ⟨u, hfirst, hkept, hfree htimeout, htv, rfl⟩
  | false =>
    have hremoved := eventQueueRemove_self u ev .timer
    refine ⟨u.eventQueueRemove ev .timer, hfirst.trans (.single (.remove ev .timer)), ?_, ?_, ?_, rfl⟩
    · rw [eventQueueRemove_evsets, hkept]
    · rw [hremoved]
      rfl
    · rw [hremoved]
      exact htv

theorem take_pieces {ev : Nat} (hsets : (s.event ev).evsets = true) (harms : Rearms s ev → arms ev)
    (e : EventEffect) : Pieces arms sets s ((s.beforeCallback ev).emit e) := by
  refine Relation.ReflTransGen.trans ?_ (Pieces.single (.emit e))
  by_cases hrearms : Rearms s ev
  · obtain ⟨u, (hpieces : Pieces arms sets s u), hkept, -, hmsecs, hlast⟩ := take_armed hsets hrearms
    rw [hlast]
    exact hpieces.trans (.single (.arm ev (harms hrearms) hkept hmsecs))
  · unfold beforeCallback
    split
    · -- the event is not persistent
      exact evsetsDel_pieces ev 0
    · rename_i hpersist
      dsimp only
      have hview := eventQueueRemove_self s ev .active
      refine (Pieces.single (.remove ev .active)).trans ?_
      split
      · rename_i htv
        -- a timeout left the event in the wheel, where it stays
        have hboth : ((s.eventQueueRemove ev .active).event ev).timer = true ∧
            ((s.eventQueueRemove ev .active).event ev).results.timeout = true := by
          rw [hview] at htv ⊢
          by_contra hnot
          exact hrearms ⟨by simpa using hpersist, htv, hnot⟩
        generalize s.eventQueueRemove ev .active = u at hboth
        rw [if_neg (by simp [hboth.2])]
        have hsame : u.eventQueueInsert ev .timer = u := if_pos hboth.1
        rw [hsame]
      · exact .refl

end Evlite.EventSet
