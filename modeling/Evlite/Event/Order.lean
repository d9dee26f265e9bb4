import Evlite.Event.Clock
import Evlite.Event.Destroy

/-!
# The Order in Which Timers Expire

`evtimer_dispatch` walks over a list that it rotates and shrinks while it walks, and stops
after the element that was the last one at the start. It nevertheless visits every event of
the bucket once, and leaves those that wait for another revolution in their order.

Timers are appended at the end of a bucket, so every bucket is ordered by the times of
arming, through any number of revolutions. Timers that expire in one tick become active in
this order.

## Main results

- `evtimerDispatchVisits_eq`: the heads the loop looks at are the bucket, each event once.
- `Dispatched`, `evtimerDispatch_dispatched`: what one call does to the whole wheel.
- `Stamped.step_ordered`: every bucket stays in the order of arming.
- `expires_in_order`: both together, for every reachable wheel.
-/

namespace Evlite.EventSet

variable {κ : Type} {s : EventSet κ} {ev : Nat}

/-! ## The events the loop looks at -/

/-- The events that the rounds of the loop of `evtimer_dispatch` find at the head of the
bucket. -/
def evtimerDispatchVisits (b laster : Nat) : Nat → EventSet κ → Int → List Nat
  | 0, _, _ => []
  | fuel + 1, s, rc =>
    match s.coreTimer.bucketArray b with
    | [] => []
    | ev :: _ =>
      let r := s.evtimerDispatchOne b ev rc
      ev :: if ev = laster then [] else evtimerDispatchVisits b laster fuel r.1 r.2

/-- The loop finds the events `todo` at the head, one after the other, and no other. -/
theorem evtimerDispatchVisits_eq (h : s.Consistent) {b laster fuel : Nat} {todo : List Nat}
    (done : List Nat) (rc : Int) (hbucket : s.coreTimer.bucketArray b = todo ++ done)
    (hnodup : todo.Nodup) (hlast : todo.getLast? = some laster) (hfuel : todo.length ≤ fuel) :
    evtimerDispatchVisits b laster fuel s rc = todo := by
  induction todo generalizing s rc done fuel with
  | nil => cases hlast
  | cons ev rest ih =>
    obtain ⟨fuel, rfl⟩ : ∃ k, fuel = k + 1 := by
      rw [List.length_cons] at hfuel
      exact ⟨fuel - 1, by omega⟩
    rw [List.cons_append] at hbucket
    unfold evtimerDispatchVisits
    rw [hbucket]
    dsimp only
    rcases evtimerDispatch_round h rc hbucket hnodup hlast with
      ⟨rfl, hev⟩ | ⟨hev, hnodup', hlast', hnext, done', hbucket'⟩
    · rw [if_pos hev]
    · rw [if_neg hev, ih hnext done' _ hbucket' hnodup' hlast' (Nat.le_of_succ_le_succ hfuel)]

/-! ## What one round does to the lists -/

theorem eventActive_activelist (s : EventSet κ) (ev : Nat) (res : EvMask) :
    (s.eventActive ev res).activelist =
      s.activelist ++ if (s.event ev).active then [] else [ev] := by
  unfold eventActive
  dsimp only
  by_cases hactive : (s.event ev).active = true
  · have hemit : ((s.emit (.activate ev res (s.event ev).lastAdd)).event ev).active = true := hactive
    rw [if_pos hemit, if_pos hactive, List.append_nil]
    rfl
  · have hemit : ¬((s.emit (.activate ev res (s.event ev).lastAdd)).event ev).active = true := hactive
    rw [if_neg hemit, if_neg hactive]
    unfold eventQueueInsert
    rw [if_neg]
    · rfl
    · simpa [status] using hactive

/-- The event `ev` reaches the end of its count, and is not active yet. -/
def Fires (s : EventSet κ) (ev : Nat) : Prop :=
  (s.event ev).timerStepcnt = 1 ∧ (s.event ev).active = false

instance (s : EventSet κ) (ev : Nat) : Decidable (Fires s ev) :=
  inferInstanceAs (Decidable (_ ∧ _))

/-- What a round counts, and what it adds to the active list. -/
theorem evtimerDispatchOne_results (s : EventSet κ) (b ev : Nat) (rc : Int)
    (hcount : 1 ≤ (s.event ev).timerStepcnt) :
    (s.evtimerDispatchOne b ev rc).2 = rc + (if (s.event ev).timerStepcnt = 1 then 1 else 0) ∧
      (s.evtimerDispatchOne b ev rc).1.activelist =
        s.activelist ++ if Fires s ev then [ev] else [] := by
  have hevent : (s.modify ev fun e => { e with timerStepcnt := e.timerStepcnt - 1 }).event ev =
      { s.event ev with timerStepcnt := (s.event ev).timerStepcnt - 1 } := by
    rw [modify_event, if_pos rfl]
  have hlist : (s.modify ev fun e => { e with timerStepcnt := e.timerStepcnt - 1 }).activelist =
      s.activelist := rfl
  unfold evtimerDispatchOne
  dsimp only
  generalize (s.modify ev fun e => { e with timerStepcnt := e.timerStepcnt - 1 }) = t at hevent hlist
  have hstep : (t.event ev).timerStepcnt = (s.event ev).timerStepcnt - 1 := by rw [hevent]
  have hactive : (t.event ev).active = (s.event ev).active := by rw [hevent]
  rw [hstep]
  by_cases hmore : 1 < (s.event ev).timerStepcnt
  · have hnot : ¬Fires s ev := fun h => by have := h.1; omega
    rw [if_pos (by omega), if_neg (by omega), if_neg hnot, Int.add_zero, List.append_nil]
    exact ⟨rfl, hlist⟩
  · -- the last revolution: the event leaves the wheel before it is activated
    have hone : (s.event ev).timerStepcnt = 1 := by omega
    rw [if_neg (by omega), if_pos (by omega), if_pos hone]
    refine ⟨rfl, ?_⟩
    have hleft : ((t.evtimerRemove ev).setStatus ev .timer false).activelist = t.activelist := by
      unfold evtimerRemove
      dsimp only
      split <;> rfl
    have hsame : (((t.evtimerRemove ev).setStatus ev .timer false).event ev).active =
        (t.event ev).active := by
      unfold evtimerRemove
      dsimp only
      split <;> simp [setStatus]
    rw [eventActive_activelist, hleft, hsame, hlist, hactive]
    -- an event that is active already keeps its place in the active list
    cases hbit : (s.event ev).active with
    | true => simp [Fires, hbit]
    | false => simp [Fires, hbit, hone]

/-- A pass over a bucket: what is left of it, what of the other buckets, and what becomes
active. -/
theorem fold_lists (h : s.Consistent) {b : Nat} {todo : List Nat} (done : List Nat) (rc : Int)
    (hbucket : s.coreTimer.bucketArray b = todo ++ done) (hnodup : todo.Nodup)
    (hcounts : ∀ a ∈ todo, 1 ≤ (s.event a).timerStepcnt) :
    let r := todo.foldl (fun r ev => r.1.evtimerDispatchOne b ev r.2) (s, rc)
    (∀ c, r.1.coreTimer.bucketArray c =
      if c = b then done ++ todo.filter (fun a => 1 < (s.event a).timerStepcnt)
      else s.coreTimer.bucketArray c) ∧
    r.2 = rc + (todo.filter fun a => (s.event a).timerStepcnt = 1).length ∧
    r.1.activelist = s.activelist ++ todo.filter fun a => Fires s a := by
  induction todo generalizing s rc done with
  | nil =>
    refine ⟨fun c => ?_, (Int.add_zero rc).symm, (List.append_nil _).symm⟩
    split
    · rename_i hc
      show s.coreTimer.bucketArray c = _
      rw [hc, hbucket, List.filter_nil, List.append_nil, List.nil_append]
    · rfl
  | cons a rest ih =>
    rw [List.cons_append] at hbucket
    have hmem : a ∈ s.coreTimer.bucketArray b := hbucket ▸ List.mem_cons_self
    obtain ⟨hfresh, hrest⟩ := List.nodup_cons.mp hnodup
    have hone := evtimerDispatchOne_bucket h rc hbucket
    have hhead := hone b
    rw [if_pos rfl, List.append_assoc] at hhead
    -- the rest of the bucket is as it was
    have hsame : ∀ x ∈ rest, (s.evtimerDispatchOne b a rc).1.event x = s.event x := fun x hx =>
      (evtimerDispatchOne_other s b rc (by rintro rfl; exact hfresh hx)).1
    have hcounts' : ∀ x ∈ rest, 1 ≤ ((s.evtimerDispatchOne b a rc).1.event x).timerStepcnt :=
      fun x hx => by
        rw [hsame x hx]
        exact hcounts x (List.mem_cons_of_mem a hx)
    obtain ⟨hbuckets, hrc, hlist⟩ := ih (h.evtimerDispatchOne rc hmem) _
      (s.evtimerDispatchOne b a rc).2 hhead hrest hcounts'
    obtain ⟨hcounted, hactive⟩ := evtimerDispatchOne_results s b a rc (hcounts a List.mem_cons_self)
    have hkept : rest.filter (fun x =>
        1 < ((s.evtimerDispatchOne b a rc).1.event x).timerStepcnt) =
          rest.filter fun x => 1 < (s.event x).timerStepcnt :=
      List.filter_congr fun x hx => by rw [hsame x hx]
    have hended : rest.filter (fun x =>
        ((s.evtimerDispatchOne b a rc).1.event x).timerStepcnt = 1) =
          rest.filter fun x => (s.event x).timerStepcnt = 1 :=
      List.filter_congr fun x hx => by rw [hsame x hx]
    have hfires : rest.filter (fun x => Fires (s.evtimerDispatchOne b a rc).1 x) =
        rest.filter fun x => Fires s x :=
      List.filter_congr fun x hx => decide_eq_decide.mpr (by rw [Fires, Fires, hsame x hx])
    dsimp only
    rw [List.foldl_cons]
    refine ⟨fun c => ?_, hrc.trans ?_, hlist.trans ?_⟩
    · refine (hbuckets c).trans ?_
      rw [hone c]
      split
      · rw [hkept, List.append_assoc, List.filter_cons]
        by_cases hmore : 1 < (s.event a).timerStepcnt <;> simp [hmore]
      · rfl
    · rw [hended, hcounted, List.filter_cons]
      by_cases hend : (s.event a).timerStepcnt = 1
      · simp only [hend, decide_true, if_true, List.length_cons]
        omega
      · simp [hend]
    · rw [hfires, hactive, List.append_assoc, List.filter_cons]
      by_cases hfire : Fires s a <;> simp [hfire]

/-! ## One call of evtimer_dispatch -/

/-- What a call of `evtimer_dispatch` with the result `r` does to the wheel, when the bucket of
the tick is the one with the number `b`. -/
structure Dispatched (s : EventSet κ) (b : Nat) (r : EventSet κ × Int) : Prop where
  /-- The loop ends, and looks at each event of the bucket once, in the order of the bucket. -/
  visits : ∀ laster fuel, (s.coreTimer.bucketArray b).getLast? = some laster →
    (s.coreTimer.bucketArray b).length ≤ fuel →
    evtimerDispatchVisits b laster fuel s.ticked 0 = s.coreTimer.bucketArray b ∧
      evtimerDispatchLoop b laster fuel s.ticked 0 = r
  nodup : (s.coreTimer.bucketArray b).Nodup
  positive : ∀ a ∈ s.coreTimer.bucketArray b, 1 ≤ (s.event a).timerStepcnt
  counted : ∀ a ∈ s.coreTimer.bucketArray b, 1 < (s.event a).timerStepcnt →
    r.1.event a = { s.event a with timerStepcnt := (s.event a).timerStepcnt - 1 } ∧
      r.1.timeouts a = s.timeouts a
  removed : ∀ a ∈ s.coreTimer.bucketArray b, (s.event a).timerStepcnt = 1 →
    (r.1.event a).timer = false ∧ r.1.timeouts a = s.timeouts a + 1
  others : ∀ a ∉ s.coreTimer.bucketArray b, r.1.event a = s.event a ∧ r.1.timeouts a = s.timeouts a
  bucket : r.1.coreTimer.bucketArray b =
    (s.coreTimer.bucketArray b).filter fun a => 1 < (s.event a).timerStepcnt
  buckets : ∀ c, c ≠ b → r.1.coreTimer.bucketArray c = s.coreTimer.bucketArray c
  returns : r.2 = ((s.coreTimer.bucketArray b).filter fun a => (s.event a).timerStepcnt = 1).length
  active : r.1.activelist =
    s.activelist ++ (s.coreTimer.bucketArray b).filter fun a => Fires s a

/-- The bucket of the next tick. -/
def tickBucket (s : EventSet κ) : Nat := s.coreTimer.evtimerIndex s.coreTimer.dispatchRefer

/-- Every event in the wheel has a revolution to wait for. -/
def Counted (s : EventSet κ) : Prop := ∀ a, (s.event a).timer = true → 1 ≤ (s.event a).timerStepcnt

theorem evtimerDispatch_dispatched (h : s.Consistent) (hcounted : s.Counted) :
    Dispatched s s.tickBucket s.evtimerDispatch := by
  have hbucket : s.ticked.coreTimer.bucketArray s.tickBucket =
      s.coreTimer.bucketArray s.tickBucket ++ [] := (List.append_nil _).symm
  have hnodup := bucket_nodup h s.tickBucket
  have hpositive : ∀ a ∈ s.coreTimer.bucketArray s.tickBucket, 1 ≤ (s.event a).timerStepcnt :=
    fun a ha => hcounted a (h.of_mem_bucket ha).1
  have hfold : s.evtimerDispatch = (s.coreTimer.bucketArray s.tickBucket).foldl
      (fun r ev => r.1.evtimerDispatchOne s.tickBucket ev r.2) (s.ticked, 0) := evtimerDispatch_eq h
  obtain ⟨hbuckets, hreturns, hactive⟩ := fold_lists h.ticked [] 0 hbucket hnodup hpositive
  rw [← hfold] at hbuckets hreturns hactive
  have hspec := fun a => fold_spec h.ticked a [] 0 hbucket hnodup
  simp only [← hfold] at hspec
  refine ⟨fun laster fuel hlast hfuel => ⟨?_, ?_⟩, hnodup, hpositive, fun a ha hmore => ?_,
    fun a ha hlast => ?_, fun a ha => ?_, ?_, fun c hc => ?_, ?_, hactive⟩
  · exact evtimerDispatchVisits_eq h.ticked [] 0 hbucket hnodup hlast hfuel
  · rw [hfold]
    exact evtimerDispatchLoop_eq h.ticked [] 0 hbucket hnodup hlast hfuel
  · exact (hspec a).2.1 ha hmore
  · exact (hspec a).2.2 ha hlast
  · exact (hspec a).1 ha
  · have hown := hbuckets s.tickBucket
    rwa [if_pos rfl, List.nil_append] at hown
  · have hother := hbuckets c
    rwa [if_neg hc] at hother
  · rwa [Int.zero_add] at hreturns

/-! ## Every reachable wheel counts at least one revolution -/

theorem stepcntFor_pos (t : EvTimer) (hpos : 1 ≤ t.bucketCount) (hprecision : 0 < t.maxPrecision)
    (tv : Int) : 1 ≤ t.stepcntFor tv := by
  have hrevolution : 0 < t.maxPrecision * t.bucketCount :=
    Int.mul_pos hprecision (by exact_mod_cast hpos)
  have hrounded : 0 < t.roundedUp tv := by
    unfold EvTimer.roundedUp
    split <;> omega
  have hquotient : 0 ≤ (t.roundedUp tv).tdiv (t.maxPrecision * t.bucketCount) :=
    Int.tdiv_nonneg (by omega) (by omega)
  unfold EvTimer.stepcntFor
  dsimp only
  split
  · omega
  · rename_i hrest
    -- the timeout is a number of whole revolutions, and not of none
    have hwhole := Int.mul_tdiv_add_tmod (t.roundedUp tv) (t.maxPrecision * t.bucketCount)
    by_contra hnone
    have hzero : (t.roundedUp tv).tdiv (t.maxPrecision * t.bucketCount) = 0 := by omega
    rw [hzero, Int.mul_zero] at hwhole
    exact hrest (by omega)

/-- What a piece that arms an event gives it to wait for. -/
theorem eventQueueInsert_counts {s : EventSet κ} {ev : Nat} (hfree : (s.event ev).timer = false)
    (hmsecs : 0 ≤ (s.event ev).timerMsecs) :
    ((s.eventQueueInsert ev .timer).event ev).timerStepcnt =
      s.coreTimer.stepcntFor (s.event ev).timerMsecs := by
  unfold eventQueueInsert
  rw [if_neg (by rw [status, hfree]; decide)]
  show (((s.setStatus ev .timer true).evtimerAppend ev).event ev).timerStepcnt = _
  unfold evtimerAppend
  have hsame : ((s.setStatus ev .timer true).event ev).timerMsecs = (s.event ev).timerMsecs := by
    simp [setStatus]
  dsimp only
  rw [hsame, if_neg (by omega)]
  simp [setStatus]

/-- A piece sets the timeout of an event, or does nothing of this kind. -/
theorem Piece.sets_or {arms : Nat → Prop} {sets : Nat → Int → Prop} {s t : EventSet κ}
    (h : Piece arms sets s t) : Piece arms (fun _ _ => False) s t ∨
      ∃ ev tv, t = s.modify ev fun e => { e with timerMsecs := tv } := by
  cases h with
  | emit e => exact .inl (.emit e)
  | remove ev type => exact .inl (.remove ev type)
  | list ev type htype hsets => exact .inl (.list ev type htype hsets)
  | arm ev harms hsets hmsecs => exact .inl (.arm ev harms hsets hmsecs)
  | setMsecs ev tv h => exact .inr ⟨ev, tv, rfl⟩
  | change ev f hf => exact .inl (.change ev f hf)
  | clear ev l hfree => exact .inl (.clear ev l hfree)

theorem Counted.piece {arms : Nat → Prop} {sets : Nat → Int → Prop} {s t : EventSet κ}
    (h : s.Counted) (hpos : 1 ≤ s.coreTimer.bucketCount) (hprecision : 0 < s.coreTimer.maxPrecision)
    (hpiece : Piece arms sets s t) : t.Counted := by
  intro a htimer
  rcases hpiece.sets_or with hpiece | ⟨ev, tv, rfl⟩
  · cases hpiece.fate a (fun _ => id) with
    | same hsame =>
      rw [hsame.stepcnt]
      exact h a (hsame.timer ▸ htimer)
    | out hout => exact absurd htimer (by rw [hout]; decide)
    | armed _ _ hmsecs hfree ht =>
      rw [ht, eventQueueInsert_counts hfree hmsecs]
      exact stepcntFor_pos _ hpos hprecision _
  · -- a new timeout does not change a count that is under way
    by_cases ha : a = ev
    · subst ha
      have hbefore : (s.event a).timer = true := by simpa using htimer
      simpa using h a hbefore
    · rw [modify_event, if_neg ha] at htimer ⊢
      exact h a htimer

theorem Dispatched.counted_after {b : Nat} {r : EventSet κ × Int} (h : Dispatched s b r)
    (hcounted : s.Counted) : r.1.Counted := by
  intro a htimer
  by_cases ha : a ∈ s.coreTimer.bucketArray b
  · rcases Int.lt_or_eq_of_le (h.positive a ha) with hmore | hlast
    · rw [(h.counted a ha hmore).1]
      show 1 ≤ (s.event a).timerStepcnt - 1
      omega
    · rw [(h.removed a ha hlast.symm).1] at htimer
      cases htimer
  · rw [(h.others a ha).1] at htimer ⊢
    exact hcounted a htimer

theorem Pieces.counted {arms : Nat → Prop} {sets : Nat → Int → Prop} {s t : EventSet κ} {p N : Nat}
    (hpieces : Pieces arms sets s t) (hp : 0 < p) (hN : 1 ≤ N)
    (h : Turning p N s ∧ s.timerPrecision = p) (hcounted : s.Counted) : t.Counted :=
  (hpieces.invariant
    (I := fun u => (Turning p N u ∧ u.timerPrecision = p) ∧ u.Counted) h.1.consistent ⟨h, hcounted⟩
    fun _ _ _ hu hpiece => ⟨Pieces.turning (.single hpiece) hu.1,
      hu.2.piece (by rw [hu.1.1.buckets]; exact hN) (by rw [hu.1.1.precision]; omega) hpiece⟩).2.2

end EventSet

/-! ## The times of arming -/

namespace ClockInput

open EventSet

variable {κ : Type}

/-- The event that the input puts into the wheel: `evsets_add` was given a timeout, or a
persistent event is armed again before its callback runs. -/
def arming (s : EventSet κ) : ClockInput κ → Option Nat
  | .op (.add ev tv _) => if (s.event ev).cb.isSome ∧ 0 ≤ tv then some ev else none
  | .take => s.activelist.head?.filter fun ev => EventSet.Rearms s ev
  | _ => none

end ClockInput

/-- An event set under a clock that remembers when each event was armed the last time, as the
number of armings before. -/
structure Stamped (κ : Type) extends Clocked κ where
  count : Nat := 0
  stamp : Nat → Nat := fun _ => 0

namespace Stamped

open EventSet

variable {κ : Type}

/-- One input, with its time noted if it arms an event. -/
def step (s : Stamped κ) (i : ClockInput κ) : Option (Stamped κ) :=
  (s.toClocked.step i).map fun t =>
    match i.arming s.set with
    | none => { s with toClocked := t }
    | some ev =>
      { toClocked := t, count := s.count + 1, stamp := Function.update s.stamp ev s.count }

/-- A new event set, in which nothing was armed. -/
def create (precision : Int) (N : Nat) (now : Int) : Stamped κ where
  toClocked := Clocked.create precision N now

end Stamped

namespace EventSet

variable {κ : Type}

/-- From `s` to `t` nothing enters the wheel, or the event `ev` does, after it was taken out of
it. -/
inductive Rearmed (s t : EventSet κ) : Option Nat → Prop where
  | kept (h : ∀ c, List.Sublist (t.coreTimer.bucketArray c) (s.coreTimer.bucketArray c)) :
      Rearmed s t none
  | armed (ev : Nat) (u : EventSet κ)
      (h : ∀ c, List.Sublist (u.coreTimer.bucketArray c) (s.coreTimer.bucketArray c))
      (hfree : ∀ c, ev ∉ u.coreTimer.bucketArray c)
      (ht : ∀ c, t.coreTimer.bucketArray c = u.coreTimer.bucketArray c ∨
        t.coreTimer.bucketArray c = u.coreTimer.bucketArray c ++ [ev]) :
      Rearmed s t (some ev)

/-- A piece that arms nothing leaves a sublist of each bucket. -/
theorem Piece.sublist {sets : Nat → Int → Prop} {s t : EventSet κ} (hs : s.Consistent)
    (h : Piece (fun _ => False) sets s t) (c : Nat) :
    List.Sublist (t.coreTimer.bucketArray c) (s.coreTimer.bucketArray c) := by
  cases h with
  | emit e => exact .refl _
  | remove ev type =>
    by_cases htype : type = .timer
    · subst htype
      rw [eventQueueRemove_buckets hs]
      exact List.erase_sublist
    · rw [eventQueueRemove_coreTimer s ev htype]
  | list ev type htype =>
    have hsame : (s.eventQueueInsert ev type).coreTimer = s.coreTimer := by
      unfold eventQueueInsert
      split
      · rfl
      · cases type with
        | timer => exact absurd rfl htype
        | inserted => rfl
        | active => rfl
    rw [hsame]
  | arm ev harms => exact harms.elim
  | setMsecs ev tv h => exact .refl _
  | change ev f hf => exact .refl _
  | clear ev l hfree => exact .refl _

theorem Pieces.sublist {sets : Nat → Int → Prop} {s t : EventSet κ} (hs : s.Consistent)
    (h : Pieces (fun _ => False) sets s t) (c : Nat) :
    List.Sublist (t.coreTimer.bucketArray c) (s.coreTimer.bucketArray c) :=
  (h.invariant (I := fun u => List.Sublist (u.coreTimer.bucketArray c) (s.coreTimer.bucketArray c))
    hs (.refl _) fun _ _ hu hsub hpiece => (hpiece.sublist hu c).trans hsub).2

/-- Where an event goes that is put into the wheel. -/
theorem eventQueueInsert_buckets {s : EventSet κ} {ev : Nat} (c : Nat) :
    (s.eventQueueInsert ev .timer).coreTimer.bucketArray c = s.coreTimer.bucketArray c ∨
      (s.eventQueueInsert ev .timer).coreTimer.bucketArray c = s.coreTimer.bucketArray c ++ [ev] := by
  unfold eventQueueInsert
  split
  · exact .inl rfl
  · show ((s.setStatus ev .timer true).evtimerAppend ev).coreTimer.bucketArray c = _ ∨
      ((s.setStatus ev .timer true).evtimerAppend ev).coreTimer.bucketArray c = _
    unfold evtimerAppend
    dsimp only
    split
    · exact .inl rfl
    · rw [setTimer_coreTimer, EvTimer.link_bucketArray]
      split
      · rename_i hc
        subst hc
        exact .inr rfl
      · exact .inl rfl

theorem Rearmed.of_armed {sets : Nat → Int → Prop} {s u t : EventSet κ} {ev : Nat}
    (hs : s.Consistent) (hpieces : Pieces (fun _ => False) sets s u) (hfree : (u.event ev).timer = false)
    (ht : t.coreTimer = (u.eventQueueInsert ev .timer).coreTimer) : Rearmed s t (some ev) := by
  have hu : u.Consistent := (hpieces.invariant (I := fun _ => True) hs trivial fun _ _ _ _ _ => trivial).1
  refine .armed ev u (hpieces.sublist hs) (fun c hmem => ?_) fun c => ?_
  · rw [(hu.of_mem_bucket hmem).1] at hfree
    cases hfree
  · rw [ht]
    exact eventQueueInsert_buckets c

/-- What an input does to the buckets, but for the tick. -/
theorem Clocked.step_rearmed {s t : Clocked κ} {i : ClockInput κ} (hs : s.set.Consistent)
    (hi : i ≠ .timer) (hstep : s.step i = some t) : Rearmed s.set t.set (i.arming s.set) := by
  cases i with
  | op op =>
    cases hstep
    show Rearmed s.set (s.set.runOp op) _
    have hother : (∀ a tv, ¬EventOp.Arms op a tv) → Rearmed s.set (s.set.runOp op) none := by
      intro hnone
      have hpieces : Pieces (fun _ => False) (fun _ _ => True) s.set (s.set.runOp op) :=
        runOp_pieces hs op fun a tv harms => absurd harms (hnone a tv)
      exact .kept (hpieces.sublist hs)
    cases op with
    | add ev tv pollAdd =>
      unfold ClockInput.arming
      dsimp only
      split
      · -- before the insertion nothing enters the wheel
        rename_i hguard
        obtain ⟨u, hpieces, -, hfree, -, hlast⟩ :=
          @evsetsAdd_armed κ s.set (fun _ => False) (fun _ _ => True) ev tv hguard.2 pollAdd trivial
        refine .of_armed hs hpieces hfree ?_
        rw [← hlast]
        simp only [runOp, hguard.1, if_true]
      · rename_i hguard
        by_cases hcb : (s.set.event ev).cb.isSome
        · exact hother fun a u harms => hguard ⟨hcb, harms.2.2⟩
        · simp only [runOp, hcb]
          exact .kept fun c => .refl _
    | del ev pollDel => exact hother fun a tv => id
    | set ev fd events => exact hother fun a tv => id
    | setCallback ev cb => exact hother fun a tv => id
    | reset ev pollDel => exact hother fun a tv => id
    | destroy ev => exact hother fun a tv => id
  | report a res =>
    cases hstep
    have hpieces : Pieces (fun _ => False) (fun _ _ => True) s.set (s.set.pollReport a res) :=
      pollReport_pieces hs a res
    exact .kept (hpieces.sublist hs)
  | timer => exact absurd rfl hi
  | take =>
    unfold Clocked.step move at hstep
    cases hactive : s.set.activelist with
    | nil => simp [hactive] at hstep
    | cons a rest =>
      simp only [hactive, Option.map_some, Option.some.injEq] at hstep
      have hmem : a ∈ s.set.activelist := hactive ▸ List.mem_cons_self
      have hsets := (hs.of_mem_activelist hmem).2
      simp only [ClockInput.arming, hactive, List.head?_cons, Option.filter_some]
      rw [← hstep]
      by_cases hrearms : Rearms s.set a
      · rw [if_pos (decide_eq_true hrearms)]
        obtain ⟨u, hpieces, -, hfree, -, hlast⟩ :=
          @take_armed κ s.set (fun _ => False) (fun _ _ => True) a hsets hrearms
        refine .of_armed hs hpieces hfree ?_
        rw [← hlast]
        rfl
      · rw [if_neg (by simpa using hrearms)]
        have hpieces : Pieces (fun _ => False) (fun _ _ => True) s.set
            ((s.set.beforeCallback a).emit (.invoke a ((s.set.beforeCallback a).event a).results)) :=
          take_pieces hsets hrearms _
        exact .kept (hpieces.sublist hs)
  | wait msecs =>
    cases hstep
    exact .kept fun c => .refl _

/-! ## Buckets in the order of arming -/

/-- Every bucket lists its events by the times at which they were armed, all before `count`. -/
def InOrder (s : EventSet κ) (stamp : Nat → Nat) (count : Nat) : Prop :=
  ∀ c, (s.coreTimer.bucketArray c).Pairwise (fun a b => stamp a < stamp b) ∧
    ∀ a ∈ s.coreTimer.bucketArray c, stamp a < count

theorem InOrder.sublist {s t : EventSet κ} {stamp : Nat → Nat} {count : Nat} (h : InOrder s stamp count)
    (hsub : ∀ c, List.Sublist (t.coreTimer.bucketArray c) (s.coreTimer.bucketArray c)) :
    InOrder t stamp count :=
  fun c => ⟨(h c).1.sublist (hsub c), fun a ha => (h c).2 a ((hsub c).subset ha)⟩

/-- The latest event is at the end. -/
theorem pairwise_append_latest {l : List Nat} {stamp : Nat → Nat} {ev count : Nat} (hfree : ev ∉ l)
    (hl : l.Pairwise fun a b => stamp a < stamp b) (hcount : ∀ a ∈ l, stamp a < count) :
    (l ++ [ev]).Pairwise fun a b =>
      Function.update stamp ev count a < Function.update stamp ev count b := by
  have hold : ∀ a ∈ l, Function.update stamp ev count a = stamp a := fun a ha =>
    Function.update_of_ne (by rintro rfl; exact hfree ha) _ _
  refine List.pairwise_append.mpr ⟨?_, List.pairwise_singleton .., fun a ha b hb => ?_⟩
  · refine hl.imp_of_mem fun ha hb hlt => ?_
    rw [hold _ ha, hold _ hb]
    exact hlt
  · rw [List.mem_singleton.mp hb, Function.update_self, hold a ha]
    exact hcount a ha

theorem InOrder.armed {s t : EventSet κ} {stamp : Nat → Nat} {count ev : Nat}
    (h : InOrder s stamp count) (hfree : ∀ c, ev ∉ s.coreTimer.bucketArray c)
    (ht : ∀ c, t.coreTimer.bucketArray c = s.coreTimer.bucketArray c ∨
      t.coreTimer.bucketArray c = s.coreTimer.bucketArray c ++ [ev]) :
    InOrder t (Function.update stamp ev count) (count + 1) := by
  intro c
  obtain ⟨hpairs, hcount⟩ := h c
  have happended := pairwise_append_latest (hfree c) hpairs hcount
  have hlater : ∀ a ∈ s.coreTimer.bucketArray c ++ [ev],
      Function.update stamp ev count a < count + 1 := by
    intro a ha
    by_cases hev : a = ev
    · rw [hev, Function.update_self]
      exact Nat.lt_succ_self count
    · rw [Function.update_of_ne hev]
      have hmem : a ∈ s.coreTimer.bucketArray c :=
        (List.mem_append.mp ha).resolve_right fun hlast => hev (List.mem_singleton.mp hlast)
      exact Nat.lt_succ_of_lt (hcount a hmem)
  -- the bucket it went to is longer by it, the others are as they were
  rcases ht c with hc | hc
  · rw [hc]
    exact ⟨happended.sublist (List.sublist_append_left ..), fun a ha =>
      hlater a (List.mem_append_left _ ha)⟩
  · rw [hc]
    exact ⟨happended, hlater⟩

/-! ## Runs -/

/-- What every run of a stamped event set keeps. -/
structure Ordered (p N : Nat) (s : Stamped κ) : Prop where
  turning : Turning p N s.set ∧ s.set.timerPrecision = p
  counted : s.set.Counted
  order : InOrder s.set s.stamp s.count

/-- The look at the clock leaves the wheel as it is, or is a call of `evtimer_dispatch`. -/
theorem checkTimer_cases (s : EventSet κ) (now : Int) : Clocked.checkTimer s now = s ∨
    ((Clocked.checkTimer s now).coreTimer = s.evtimerDispatch.1.coreTimer ∧
      ∀ a, (Clocked.checkTimer s now).event a = s.evtimerDispatch.1.event a) := by
  unfold Clocked.checkTimer
  split
  · exact .inr ⟨rfl, fun _ => rfl⟩
  · exact .inl rfl

theorem Ordered.timer {p N : Nat} {s : Stamped κ} (h : Ordered p N s) :
    (Clocked.checkTimer s.set s.now).Counted ∧
      InOrder (Clocked.checkTimer s.set s.now) s.stamp s.count := by
  have hdispatched := evtimerDispatch_dispatched h.turning.1.consistent h.counted
  rcases checkTimer_cases s.set s.now with hsame | ⟨hwheel, hevents⟩
  · rw [hsame]
    exact ⟨h.counted, h.order⟩
  · refine ⟨fun a => ?_, h.order.sublist fun c => ?_⟩
    · rw [hevents a]
      exact hdispatched.counted_after h.counted a
    · -- a tick leaves a sublist of its bucket, and the stamps as they are
      rw [hwheel]
      by_cases hc : c = s.set.tickBucket
      · rw [hc, hdispatched.bucket]
        exact List.filter_sublist
      · rw [hdispatched.buckets c hc]

/-- What an input that does not look at the clock leaves of the step counts. -/
theorem Clocked.step_counted {p N : Nat} {s t : Clocked κ} {i : ClockInput κ} (hp : 0 < p) (hN : 1 ≤ N)
    (h : Turning p N s.set ∧ s.set.timerPrecision = p) (hcounted : s.set.Counted) (hi : i ≠ .timer)
    (hstep : s.step i = some t) : t.set.Counted := by
  have hpieces : Pieces (fun _ => True) (fun _ _ => True) s.set t.set :=
    Clocked.step_pieces h.1.consistent hi hstep (fun _ _ _ _ _ => ⟨trivial, trivial⟩) fun _ _ => trivial
  exact Pieces.counted hpieces hp hN h hcounted

theorem Ordered.step {p N : Nat} {s t : Stamped κ} {i : ClockInput κ} (hp : 0 < p) (hN : 1 ≤ N)
    (h : Ordered p N s) (hstep : s.step i = some t) : Ordered p N t := by
  obtain ⟨u, hu, ht⟩ := Option.map_eq_some_iff.mp hstep
  have hturning := Clocked.turning h.turning hu
  by_cases hi : i = .timer
  · subst hi
    cases hu
    obtain ⟨hcounted, horder⟩ := h.timer
    rw [← ht]
    exact ⟨hturning, hcounted, horder⟩
  · have hcounted := Clocked.step_counted hp hN h.turning h.counted hi hu
    have hrearmed := Clocked.step_rearmed h.turning.1.consistent hi hu
    rw [← ht]
    cases harming : i.arming s.set with
    | none =>
      rw [harming] at hrearmed
      cases hrearmed with
      | kept hsub => exact ⟨hturning, hcounted, h.order.sublist hsub⟩
    | some ev =>
      rw [harming] at hrearmed
      cases hrearmed with
      | armed _ v hsub hfree hlast =>
        exact ⟨hturning, hcounted, (h.order.sublist hsub).armed hfree hlast⟩

theorem Ordered.create {p N : Nat} (hpos : 1 ≤ N) (hfits : N ≤ 2 ^ 32) (now : Int) :
    Ordered p N (Stamped.create p N now : Stamped κ) := by
  refine ⟨⟨Clocked.create_turning hpos hfits now, rfl⟩, fun a h => ?_, fun c => ⟨.nil, fun a h => ?_⟩⟩
  · cases h
  · cases h

/-- Every run of an event set is a run in which the times of arming are noted. -/
theorem Stamped.lift {s t : Clocked κ} {is : List (ClockInput κ)} (hrun : Lib.Run Clocked.step s is t)
    (u : Stamped κ) (hu : u.toClocked = s) : ∃ v, Lib.Run Stamped.step u is v ∧ v.toClocked = t := by
  induction hrun with
  | nil => exact ⟨u, .nil u, hu⟩
  | snoc _ _ hstep ih =>
    obtain ⟨v, hv, rfl⟩ := ih
    exact ⟨_, .snoc hv trivial (Option.map_eq_some_iff.mpr ⟨_, hstep, rfl⟩), by split <;> rfl⟩

/-! ## Main result -/

/-- In every reachable state, `evtimer_dispatch` handles every event of its bucket once and
leaves the rest of the wheel alone. The events that it activates and that were not active yet
enter the active list in the order in which they were armed the last time. -/
theorem expires_in_order (p N : Nat) (hp : 0 < p) (hpos : 1 ≤ N) (hfits : N ≤ 2 ^ 32) (start : Int)
    (is : List (ClockInput κ)) (s : Stamped κ)
    (hrun : Lib.Run Stamped.step (Stamped.create p N start) is s) :
    Dispatched s.set s.set.tickBucket s.set.evtimerDispatch ∧
      ∃ fired : List Nat, s.set.evtimerDispatch.1.activelist = s.set.activelist ++ fired ∧
        (∀ a, a ∈ fired ↔ s.set.evtimerDispatch.1.timeouts a = s.set.timeouts a + 1 ∧
          (s.set.event a).active = false) ∧
        fired.Pairwise fun a b => s.stamp a < s.stamp b := by
  have hordered : Ordered p N s := hrun.invariant (Ordered.create hpos hfits start)
    fun _ _ _ h _ hstep => h.step hp hpos hstep
  have hdispatched := evtimerDispatch_dispatched hordered.turning.1.consistent hordered.counted
  refine ⟨hdispatched, _, hdispatched.active, fun a => ?_, (hordered.order _).1.filter _⟩
  -- an event of the bucket fires exactly when its activation is counted
  rw [List.mem_filter, decide_eq_true_eq]
  constructor
  · rintro ⟨hmem, hlast, hidle⟩
    exact ⟨(hdispatched.removed a hmem hlast).2, hidle⟩
  · rintro ⟨hfired, hidle⟩
    by_cases hmem : a ∈ s.set.coreTimer.bucketArray s.set.tickBucket
    · rcases Int.lt_or_eq_of_le (hdispatched.positive a hmem) with hmore | hlast
      · rw [(hdispatched.counted a hmem hmore).2] at hfired
        omega
      · exact ⟨hmem, hlast.symm, hidle⟩
    · rw [(hdispatched.others a hmem).2] at hfired
      omega

/-- Two events are armed in different revolutions of a wheel with two buckets, and expire in
the next tick. -/
def twoRevolutions : List (ClockInput Nat) :=
  [.op (.setCallback 3 0), .op (.setCallback 4 0), .op (.add 3 45 true), .wait 10, .timer, .wait 10,
    .timer, .op (.add 4 25 true), .wait 10, .timer, .wait 10, .timer, .wait 10, .timer]

theorem expires_in_order_twoRevolutions :
    ∃ s : Stamped Nat, Lib.exec Stamped.step (Stamped.create 10 2 0) twoRevolutions = some s ∧
      s.set.evtimerDispatch.1.activelist = [3, 4] ∧
      Dispatched s.set s.set.tickBucket s.set.evtimerDispatch ∧
      ∃ fired : List Nat, s.set.evtimerDispatch.1.activelist = s.set.activelist ++ fired ∧
        (∀ a, a ∈ fired ↔ s.set.evtimerDispatch.1.timeouts a = s.set.timeouts a + 1 ∧
          (s.set.event a).active = false) ∧
        fired.Pairwise fun a b => s.stamp a < s.stamp b :=
  ⟨_, rfl, by decide +kernel,
    expires_in_order 10 2 (by decide) (by decide) (by decide) 0 twoRevolutions _
      (Lib.run_iff_exec.mpr rfl)⟩

end EventSet

end Evlite
