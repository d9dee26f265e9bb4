import Evlite.Event.ProcessActive
import Mathlib.Data.Nat.ModEq

/-!
# At Which Tick a Timer Expires

A timer with the timeout `tv` is meant to expire at the tick number `max 1 (tv / p)` after
it was armed. `evtimer_append` finds the bucket by rounding `tv / p` down and the number of
revolutions by rounding `tv / (p * N)` up; both have to agree.

The wheel is looked at on its own here: events are armed and taken out as
`event_queue_insert` and `event_queue_remove` do it, and the tick counter starts anywhere
and wraps around.

## Main results

- `evtimerDispatchLoop_eq`: the loop of `evtimer_dispatch` handles every event of the bucket
  once.
- `evtimerDispatch_counts`: a pending timer comes one tick closer, and expires at the last.
- `expires_at_tick_iff`: exactly which timeouts expire at the tick they are meant to.
-/

namespace Evlite

namespace EventSet

variable {κ : Type} {s : EventSet κ} {ev : Nat}

/-! ## One bucket -/

theorem eventActive_coreTimer (s : EventSet κ) (ev : Nat) (res : EvMask) :
    (s.eventActive ev res).coreTimer = s.coreTimer := by
  unfold eventActive
  dsimp only
  split
  · rfl
  · unfold eventQueueInsert
    split <;> rfl

/-- An event of the wheel is in the bucket that it remembers. -/
theorem Consistent.mem_bucket (h : s.Consistent) (htimer : (s.event ev).timer = true) :
    ∃ b : Nat, b < s.coreTimer.bucketCount ∧ (s.event ev).timerIndex = b ∧
      ev ∈ s.coreTimer.bucketArray b := by
  obtain ⟨hlow, hhigh⟩ := (h.linked ev).index htimer
  have hplace : (s.event ev).timerIndex = (s.event ev).timerIndex.toNat := (Int.toNat_of_nonneg hlow).symm
  refine ⟨(s.event ev).timerIndex.toNat, by omega, hplace, ?_⟩
  apply List.count_pos_iff.mp
  rw [(h.linked ev).bucket, if_pos ⟨htimer, hplace⟩]
  exact Nat.one_pos

/-- A timer that is taken out of the wheel is taken out of its bucket. -/
theorem eventQueueRemove_unlink (h : s.Consistent) {b : Nat} (hmem : ev ∈ s.coreTimer.bucketArray b) :
    (s.eventQueueRemove ev .timer).coreTimer = s.coreTimer.unlink b ev := by
  obtain ⟨htimer, hindex⟩ := h.of_mem_bucket hmem
  obtain ⟨hlow, hhigh⟩ := (h.linked ev).index htimer
  have hrange : ¬(((s.setStatus ev .timer false).event ev).timerIndex < 0 ∨
      ((s.setStatus ev .timer false).coreTimer.bucketCount : Int) ≤
        ((s.setStatus ev .timer false).event ev).timerIndex) := by
    simp only [setStatus, modify_event, modify_coreTimer, if_true]
    omega
  have hplace : ((s.setStatus ev .timer false).event ev).timerIndex.toNat = b := by
    simp [setStatus, hindex]
  unfold eventQueueRemove
  rw [if_pos (show status (s.event ev) .timer = true from htimer)]
  show ((s.setStatus ev .timer false).evtimerRemove ev).coreTimer = _
  unfold evtimerRemove
  dsimp only
  rw [if_neg hrange, setTimer_coreTimer, hplace]
  rfl

/-- A timer that is taken out of the wheel leaves its bucket, and no other one changes. -/
theorem eventQueueRemove_bucket (h : s.Consistent) {b : Nat}
    (hmem : ev ∈ s.coreTimer.bucketArray b) (c : Nat) :
    (s.eventQueueRemove ev .timer).coreTimer.bucketArray c =
      if c = b then (s.coreTimer.bucketArray b).erase ev else s.coreTimer.bucketArray c := by
  rw [eventQueueRemove_unlink h hmem, EvTimer.unlink_bucketArray]

/-- One round of the loop puts the first event of the bucket at its end, or takes it out. -/
theorem evtimerDispatchOne_bucket (h : s.Consistent) {b : Nat} {rest : List Nat} (rc : Int)
    (hbucket : s.coreTimer.bucketArray b = ev :: rest) (c : Nat) :
    (s.evtimerDispatchOne b ev rc).1.coreTimer.bucketArray c =
      if c = b then rest ++ (if 1 < (s.event ev).timerStepcnt then [ev] else [])
      else s.coreTimer.bucketArray c := by
  have hmem : ev ∈ (s.modify ev fun e =>
      { e with timerStepcnt := e.timerStepcnt - 1 }).coreTimer.bucketArray b := by
    rw [modify_coreTimer, hbucket]
    exact List.mem_cons_self ..
  have hconsistent : (s.modify ev fun e =>
      { e with timerStepcnt := e.timerStepcnt - 1 }).Consistent :=
    h.modify (by intro e; exact ⟨rfl, rfl, rfl, rfl, id⟩)
  have hstep : ((s.modify ev fun e =>
      { e with timerStepcnt := e.timerStepcnt - 1 }).event ev).timerStepcnt =
        (s.event ev).timerStepcnt - 1 := by simp
  have hsame : (s.modify ev fun e =>
      { e with timerStepcnt := e.timerStepcnt - 1 }).coreTimer = s.coreTimer := rfl
  unfold evtimerDispatchOne
  dsimp only
  rw [hstep]
  generalize (s.modify ev fun e => { e with timerStepcnt := e.timerStepcnt - 1 }) = t
    at hmem hconsistent hsame
  by_cases hmore : 1 < (s.event ev).timerStepcnt
  · -- it goes from the head of the bucket to its end
    have hpos : 0 < (s.event ev).timerStepcnt - 1 := by omega
    rw [if_pos hpos, if_pos hmore, setTimer_coreTimer, EvTimer.setBucket_bucketArray, hsame,
      hbucket, List.erase_cons_head]
  · have hpos : ¬0 < (s.event ev).timerStepcnt - 1 := by omega
    -- it leaves the bucket, by the index that it remembers
    obtain ⟨htimer, -⟩ := hconsistent.of_mem_bucket hmem
    have hremoved := eventQueueRemove_bucket hconsistent hmem c
    rw [hsame, hbucket, List.erase_cons_head] at hremoved
    rw [if_neg hpos, if_neg hmore, List.append_nil, ← hremoved, evtimerRemove_setStatus t ev htimer]
    split
    · rw [eventActive_coreTimer]
    · rfl

/-- A round of the loop handles the last of the events `ev :: rest`, or leaves those of `rest` at the
head of the bucket. -/
theorem evtimerDispatch_round (h : s.Consistent) {b laster : Nat} {rest done : List Nat} (rc : Int)
    (hbucket : s.coreTimer.bucketArray b = ev :: (rest ++ done)) (hnodup : (ev :: rest).Nodup)
    (hlast : (ev :: rest).getLast? = some laster) :
    (rest = [] ∧ ev = laster) ∨
    (ev ≠ laster ∧ rest.Nodup ∧ rest.getLast? = some laster ∧
      (s.evtimerDispatchOne b ev rc).1.Consistent ∧
      ∃ done', (s.evtimerDispatchOne b ev rc).1.coreTimer.bucketArray b = rest ++ done') := by
  have hmem : ev ∈ s.coreTimer.bucketArray b := by
    rw [hbucket]
    exact List.mem_cons_self ..
  obtain ⟨hfresh, hnodup'⟩ := List.nodup_cons.mp hnodup
  cases rest with
  | nil =>
    left
    exact ⟨rfl, by simpa using hlast⟩
  | cons a rest =>
    right
    have hlast' : (a :: rest).getLast? = some laster := by
      rwa [List.getLast?_cons_cons] at hlast
    -- the events rotated to the end come after the last one of the start
    have hev : ev ≠ laster := by
      rintro rfl
      exact hfresh (List.mem_of_getLast? hlast')
    have hone := evtimerDispatchOne_bucket h rc hbucket b
    rw [if_pos rfl, List.append_assoc] at hone
    exact ⟨hev, hnodup', hlast', h.evtimerDispatchOne rc hmem, _, hone⟩

/-- The loop of `evtimer_dispatch` handles the events `todo`, each of them once, and ends
after the last one. -/
theorem evtimerDispatchLoop_eq (h : s.Consistent) {b laster fuel : Nat} {todo : List Nat}
    (done : List Nat) (rc : Int) (hbucket : s.coreTimer.bucketArray b = todo ++ done) (hnodup : todo.Nodup)
    (hlast : todo.getLast? = some laster) (hfuel : todo.length ≤ fuel) :
    evtimerDispatchLoop b laster fuel s rc =
      todo.foldl (fun r ev => r.1.evtimerDispatchOne b ev r.2) (s, rc) := by
  induction todo generalizing s rc done fuel with
  | nil => cases hlast
  | cons ev rest ih =>
    obtain ⟨fuel, rfl⟩ : ∃ k, fuel = k + 1 := by
      rw [List.length_cons] at hfuel
      exact ⟨fuel - 1, by omega⟩
    rw [List.cons_append] at hbucket
    unfold evtimerDispatchLoop
    rw [hbucket]
    dsimp only
    rw [List.foldl_cons]
    rcases evtimerDispatch_round h rc hbucket hnodup hlast with
      ⟨rfl, hev⟩ | ⟨hev, hnodup', hlast', hnext, done', hbucket'⟩
    · rw [if_pos hev]
      rfl
    · rw [if_neg hev]
      exact ih hnext done' _ hbucket' hnodup' hlast' (Nat.le_of_succ_le_succ hfuel)

/-! ## One event -/

/-- How often the event `ev` was activated with `EV_TIMEOUT`. -/
def timeouts (s : EventSet κ) (ev : Nat) : Nat :=
  s.trace.countP fun
    | .activate a res _ => a = ev && res.timeout
    | .invoke _ _ => false

theorem timeouts_congr {t : EventSet κ} (h : t.trace = s.trace) (ev : Nat) :
    t.timeouts ev = s.timeouts ev := by
  rw [timeouts, timeouts, h]

theorem eventActive_trace (s : EventSet κ) (ev : Nat) (res : EvMask) :
    (s.eventActive ev res).trace = s.trace ++ [.activate ev res (s.event ev).lastAdd] := by
  unfold eventActive
  dsimp only
  split
  · rfl
  · rw [eventQueueInsert_trace]
    rfl

theorem eventActive_timeouts (s : EventSet κ) (ev a : Nat) :
    (s.eventActive ev .evTimeout).timeouts a = s.timeouts a + if a = ev then 1 else 0 := by
  rw [timeouts, timeouts, eventActive_trace, List.countP_append]
  by_cases ha : a = ev
  · simp [ha, EvMask.evTimeout]
  · simp [ha, Ne.symm ha]

theorem eventActive_only (s : EventSet κ) (ev : Nat) (res : EvMask) :
    Only ev s (s.eventActive ev res) := by
  have hemit : Only ev s (s.emit (.activate ev res (s.event ev).lastAdd)) :=
    ⟨fun _ _ => rfl, fun _ _ => rfl, fun _ _ => rfl, fun _ _ _ => rfl, rfl⟩
  unfold eventActive
  dsimp only
  split
  · exact hemit.trans (modify_only _ ev _)
  · exact (hemit.trans (modify_only _ ev _)).trans (eventQueueInsert_only _ ev .active)

/-- A round of the loop leaves other events alone. -/
theorem evtimerDispatchOne_other (s : EventSet κ) (b : Nat) (rc : Int) {a : Nat} (ha : a ≠ ev) :
    (s.evtimerDispatchOne b ev rc).1.event a = s.event a ∧
      (s.evtimerDispatchOne b ev rc).1.timeouts a = s.timeouts a := by
  have hstep := modify_only s ev fun e => { e with timerStepcnt := e.timerStepcnt - 1 }
  have htrace : (s.modify ev fun e =>
    { e with timerStepcnt := e.timerStepcnt - 1 }).timeouts a = s.timeouts a := rfl
  unfold evtimerDispatchOne
  dsimp only
  generalize (s.modify ev fun e => { e with timerStepcnt := e.timerStepcnt - 1 }) = t at hstep htrace
  split
  · exact ⟨hstep.event a ha, htrace⟩
  · have hremoved := (evtimerRemove_only t ev).trans (setStatus_only _ ev .timer false)
    have htrace' : ((t.evtimerRemove ev).setStatus ev .timer false).timeouts a = t.timeouts a :=
      timeouts_congr (trace_blind.evtimerRemove t ev) a
    split
    · refine ⟨((hstep.trans hremoved).trans (eventActive_only _ ev _)).event a ha, ?_⟩
      rw [eventActive_timeouts, if_neg ha, Nat.add_zero, htrace', htrace]
    · exact ⟨(hstep.trans hremoved).event a ha, htrace'.trans htrace⟩

/-- A round of the loop counts its event down, and lets it expire at the end. -/
theorem evtimerDispatchOne_self (h : s.Consistent) {b : Nat} (rc : Int)
    (hmem : ev ∈ s.coreTimer.bucketArray b) :
    (1 < (s.event ev).timerStepcnt →
      (s.evtimerDispatchOne b ev rc).1.event ev =
          { s.event ev with timerStepcnt := (s.event ev).timerStepcnt - 1 } ∧
        (s.evtimerDispatchOne b ev rc).1.timeouts ev = s.timeouts ev) ∧
      ((s.event ev).timerStepcnt = 1 →
        ((s.evtimerDispatchOne b ev rc).1.event ev).timer = false ∧
          (s.evtimerDispatchOne b ev rc).1.timeouts ev = s.timeouts ev + 1) := by
  have hmem' : ev ∈ (s.modify ev fun e =>
    { e with timerStepcnt := e.timerStepcnt - 1 }).coreTimer.bucketArray b := hmem
  have hconsistent : (s.modify ev fun e =>
      { e with timerStepcnt := e.timerStepcnt - 1 }).Consistent :=
    h.modify (by intro e; exact ⟨rfl, rfl, rfl, rfl, id⟩)
  have hevent : (s.modify ev fun e => { e with timerStepcnt := e.timerStepcnt - 1 }).event ev =
      { s.event ev with timerStepcnt := (s.event ev).timerStepcnt - 1 } := by
    rw [modify_event, if_pos rfl]
  have htrace : (s.modify ev fun e =>
    { e with timerStepcnt := e.timerStepcnt - 1 }).timeouts ev = s.timeouts ev := rfl
  unfold evtimerDispatchOne
  dsimp only
  generalize (s.modify ev fun e => { e with timerStepcnt := e.timerStepcnt - 1 }) = t
    at hmem' hconsistent hevent htrace
  have hcount : (t.event ev).timerStepcnt = (s.event ev).timerStepcnt - 1 := by rw [hevent]
  rw [hcount]
  constructor
  · intro hmore
    rw [if_pos (by omega)]
    exact ⟨hevent, htrace⟩
  · intro hlast
    rw [if_neg (by omega), if_pos (by omega)]
    refine ⟨?_, ?_⟩
    · show ((((t.evtimerRemove ev).setStatus ev .timer false).eventActive ev .evTimeout).view ev).timer =
        false
      rw [expire_view, Function.update_self]
      unfold EventView.timerExpire EventView.eventActive
      split <;> rfl
    · -- taking it out of the bucket and clearing its bit is `event_queue_remove`
      obtain ⟨htimer, -⟩ := hconsistent.of_mem_bucket hmem'
      rw [evtimerRemove_setStatus t ev htimer, eventActive_timeouts, if_pos rfl,
        timeouts_congr (eventQueueRemove_trace t ev .timer), htrace]

/-- A whole pass over a bucket: what happens to one of its events, and what to another. -/
theorem fold_spec (h : s.Consistent) (ev : Nat) {b : Nat} {todo : List Nat} (done : List Nat)
    (rc : Int) (hbucket : s.coreTimer.bucketArray b = todo ++ done) (hnodup : todo.Nodup) :
    let t := (todo.foldl (fun r ev => r.1.evtimerDispatchOne b ev r.2) (s, rc)).1
    (ev ∉ todo → t.event ev = s.event ev ∧ t.timeouts ev = s.timeouts ev) ∧
      (ev ∈ todo → 1 < (s.event ev).timerStepcnt →
        t.event ev = { s.event ev with timerStepcnt := (s.event ev).timerStepcnt - 1 } ∧
          t.timeouts ev = s.timeouts ev) ∧
      (ev ∈ todo → (s.event ev).timerStepcnt = 1 →
        (t.event ev).timer = false ∧ t.timeouts ev = s.timeouts ev + 1) := by
  induction todo generalizing s rc done with
  | nil => exact ⟨fun _ => ⟨rfl, rfl⟩, fun hev => (List.not_mem_nil hev).elim,
      fun hev => (List.not_mem_nil hev).elim⟩
  | cons a rest ih =>
    rw [List.cons_append] at hbucket
    have hmem : a ∈ s.coreTimer.bucketArray b := by
      rw [hbucket]
      exact List.mem_cons_self ..
    have hone := evtimerDispatchOne_bucket h rc hbucket b
    rw [if_pos rfl, List.append_assoc] at hone
    obtain ⟨hfresh, hrest⟩ := List.nodup_cons.mp hnodup
    obtain ⟨hnot, hmore, hlast⟩ := ih (h.evtimerDispatchOne rc hmem) _ (s.evtimerDispatchOne b a rc).2
      hone hrest
    dsimp only
    rw [List.foldl_cons]
    by_cases hev : ev = a
    · -- this round, and none of the others
      subst hev
      obtain ⟨hself, hend⟩ := evtimerDispatchOne_self h rc hmem
      obtain ⟨hevent, htimeouts⟩ := hnot hfresh
      refine ⟨fun habsent => (habsent (List.mem_cons_self ..)).elim, fun _ hcount => ?_,
        fun _ hcount => ?_⟩
      · rw [hevent, htimeouts]
        exact hself hcount
      · rw [hevent, htimeouts]
        exact hend hcount
    · obtain ⟨hsame, htimeouts⟩ := evtimerDispatchOne_other s b rc hev
      rw [hsame, htimeouts] at hnot hmore hlast
      refine ⟨fun habsent => hnot fun hin => habsent (List.mem_cons_of_mem a hin),
        fun hin hcount => ?_, fun hin hcount => ?_⟩
      · exact hmore ((List.mem_cons.mp hin).resolve_left hev) hcount
      · exact hlast ((List.mem_cons.mp hin).resolve_left hev) hcount

/-! ## The settings of the wheel -/

/-- The number of buckets, the precision and the tick counter. -/
def settings (s : EventSet κ) : Nat × Int × BitVec 32 :=
  (s.coreTimer.bucketCount, s.coreTimer.maxPrecision, s.coreTimer.dispatchRefer)

theorem settings_blind : Blind (settings : EventSet κ → Nat × Int × BitVec 32) :=
  ⟨fun _ _ _ _ => rfl, fun _ _ _ => rfl, fun _ _ _ => rfl⟩

theorem eventQueueInsert_settings (s : EventSet κ) (ev : Nat) (type : QueueType) :
    (s.eventQueueInsert ev type).settings = s.settings :=
  settings_blind.insert s ev type

theorem eventQueueRemove_settings (s : EventSet κ) (ev : Nat) (type : QueueType) :
    (s.eventQueueRemove ev type).settings = s.settings :=
  settings_blind.remove s ev type

theorem evtimerDispatchOne_settings (s : EventSet κ) (b ev : Nat) (rc : Int) :
    (s.evtimerDispatchOne b ev rc).1.settings = s.settings := by
  unfold evtimerDispatchOne
  dsimp only
  split
  · rfl
  · have hremoved : ∀ t : EventSet κ,
        ((t.evtimerRemove ev).setStatus ev .timer false).settings = t.settings :=
      fun t => settings_blind.evtimerRemove t ev
    split
    · have hactive : ∀ t : EventSet κ, (t.eventActive ev .evTimeout).settings = t.settings := by
        intro t
        rw [settings, settings, eventActive_coreTimer]
      rw [hactive, hremoved]
      rfl
    · rw [hremoved]
      rfl

theorem fold_settings (s : EventSet κ) (b : Nat) (todo : List Nat) (rc : Int) :
    (todo.foldl (fun r ev => r.1.evtimerDispatchOne b ev r.2) (s, rc)).1.settings = s.settings := by
  induction todo generalizing s rc with
  | nil => rfl
  | cons a rest ih => exact (ih _ _).trans (evtimerDispatchOne_settings s b a rc)

/-! ## One tick -/

theorem bucket_nodup (h : s.Consistent) (b : Nat) : (s.coreTimer.bucketArray b).Nodup := by
  apply List.nodup_iff_count_le_one.mpr
  intro a
  rw [(h.linked a).bucket b]
  split <;> omega

/-- The set with the tick counter advanced. -/
def ticked (s : EventSet κ) : EventSet κ :=
  s.setTimer { s.coreTimer with dispatchRefer := s.coreTimer.dispatchRefer + 1 }

theorem Consistent.ticked (h : s.Consistent) : s.ticked.Consistent := h.of_lists rfl rfl rfl rfl rfl

/-- `evtimer_dispatch` is a pass over the bucket of the tick. -/
theorem evtimerDispatch_eq (h : s.Consistent) :
    s.evtimerDispatch =
      (s.coreTimer.bucketArray (s.coreTimer.evtimerIndex s.coreTimer.dispatchRefer)).foldl
        (fun r ev => r.1.evtimerDispatchOne
          (s.coreTimer.evtimerIndex s.coreTimer.dispatchRefer) ev r.2) (s.ticked, 0) := by
  unfold evtimerDispatch
  dsimp only
  cases hlast : (s.coreTimer.bucketArray
      (s.coreTimer.evtimerIndex s.coreTimer.dispatchRefer)).getLast? with
  | none =>
    rw [List.getLast?_eq_none_iff.mp hlast]
    rfl
  | some laster =>
    exact evtimerDispatchLoop_eq h.ticked [] 0 (by rw [List.append_nil]; rfl)
      (bucket_nodup h _) hlast (Nat.le_refl _)

/-- What a tick does to an event that is not in the bucket of the tick, to one that has to wait for
another revolution, and to one that expires. -/
theorem evtimerDispatch_event (h : s.Consistent) (ev : Nat) :
    (ev ∉ s.coreTimer.bucketArray (s.coreTimer.evtimerIndex s.coreTimer.dispatchRefer) →
      s.evtimerDispatch.1.event ev = s.event ev ∧ s.evtimerDispatch.1.timeouts ev = s.timeouts ev) ∧
    (ev ∈ s.coreTimer.bucketArray (s.coreTimer.evtimerIndex s.coreTimer.dispatchRefer) →
      1 < (s.event ev).timerStepcnt →
      s.evtimerDispatch.1.event ev =
          { s.event ev with timerStepcnt := (s.event ev).timerStepcnt - 1 } ∧
        s.evtimerDispatch.1.timeouts ev = s.timeouts ev) ∧
    (ev ∈ s.coreTimer.bucketArray (s.coreTimer.evtimerIndex s.coreTimer.dispatchRefer) →
      (s.event ev).timerStepcnt = 1 →
      (s.evtimerDispatch.1.event ev).timer = false ∧
        s.evtimerDispatch.1.timeouts ev = s.timeouts ev + 1) := by
  have hbucket : s.ticked.coreTimer.bucketArray (s.coreTimer.evtimerIndex s.coreTimer.dispatchRefer) =
      s.coreTimer.bucketArray (s.coreTimer.evtimerIndex s.coreTimer.dispatchRefer) ++ [] :=
    (List.append_nil _).symm
  rw [evtimerDispatch_eq h]
  exact fold_spec h.ticked ev [] 0 hbucket (bucket_nodup h _)

/-- A tick advances the tick counter. -/
theorem evtimerDispatch_settings (h : s.Consistent) :
    s.evtimerDispatch.1.settings =
      (s.coreTimer.bucketCount, s.coreTimer.maxPrecision, s.coreTimer.dispatchRefer + 1) := by
  rw [evtimerDispatch_eq h]
  exact fold_settings s.ticked _ _ 0

/-! ## How far a bucket is away -/

/-- How many ticks pass at the counter `r` before the tick that handles the bucket `idx`. -/
def distance (N idx r : Nat) : Nat := if r % N ≤ idx then idx - r % N else idx + N - r % N

theorem succ_mod (N r : Nat) (hN : 0 < N) :
    (r + 1) % N = if r % N + 1 = N then 0 else r % N + 1 := by
  have hlt := Nat.mod_lt r hN
  rw [← Nat.mod_add_mod]
  split
  · rename_i h
    rw [h, Nat.mod_self]
  · exact Nat.mod_eq_of_lt (by omega)

theorem distance_eq_zero {N idx r : Nat} (hN : 0 < N) : distance N idx r = 0 ↔ r % N = idx := by
  have hlt := Nat.mod_lt r hN
  unfold distance
  split <;> omega

theorem distance_succ {N idx r d : Nat} (hidx : idx < N) (h : distance N idx r = d + 1) :
    distance N idx (r + 1) = d := by
  have hlt := Nat.mod_lt r (Nat.zero_lt_of_lt hidx)
  unfold distance at h ⊢
  rw [succ_mod N r (Nat.zero_lt_of_lt hidx)]
  split at h <;> split <;> split <;> omega

theorem distance_wrap {N idx r : Nat} (hidx : idx < N) (h : r % N = idx) :
    distance N idx (r + 1) = N - 1 := by
  unfold distance
  rw [succ_mod N r (Nat.zero_lt_of_lt hidx), h]
  split <;> split <;> omega

/-- The bucket that is reached `y` ticks after the next one. -/
theorem distance_add (N r y : Nat) (hN : 0 < N) : distance N ((r + y) % N) r = y % N := by
  have hr := Nat.mod_lt r hN
  have hy := Nat.mod_lt y hN
  have hsum : (r + y) % N = if r % N + y % N < N then r % N + y % N else r % N + y % N - N := by
    rw [Nat.add_mod]
    split
    · rename_i h
      exact Nat.mod_eq_of_lt h
    · rename_i h
      rw [Nat.mod_eq_sub_mod (by omega)]
      exact Nat.mod_eq_of_lt (by omega)
  unfold distance
  rw [hsum]
  split <;> split <;> omega

/-! ## Pending timers -/

/-- The wheel has a power of two of buckets. -/
def TwoPower (s : EventSet κ) : Prop := ∃ k ≤ 31, s.coreTimer.bucketCount = 2 ^ k

theorem TwoPower.pos (h : s.TwoPower) : 0 < s.coreTimer.bucketCount := by
  obtain ⟨k, -, hk⟩ := h
  rw [hk]
  exact Nat.two_pow_pos k

theorem TwoPower.dvd (h : s.TwoPower) : s.coreTimer.bucketCount ∣ 2 ^ 32 := by
  obtain ⟨k, hle, hk⟩ := h
  rw [hk]
  exact Nat.pow_dvd_pow 2 (by omega)

/-- With a power of two of buckets, `EVTIMER_INDEX` is the remainder. -/
theorem evtimerIndex_eq_mod (h : s.TwoPower) (c : BitVec 32) :
    s.coreTimer.evtimerIndex c = c.toNat % s.coreTimer.bucketCount := by
  obtain ⟨k, hle, hk⟩ := h
  have hpow : 2 ^ k ≤ 2 ^ 31 := Nat.pow_le_pow_right (by omega) hle
  have hpos := Nat.two_pow_pos k
  have hmask : (BitVec.ofNat 32 (2 ^ k) - 1).toNat = 2 ^ k - 1 := by
    rw [BitVec.toNat_sub, BitVec.toNat_ofNat]
    show (2 ^ 32 - 1 + 2 ^ k % 2 ^ 32) % 2 ^ 32 = _
    omega
  rw [EvTimer.evtimerIndex, hk, BitVec.toNat_and, hmask, Nat.and_two_pow_sub_one_eq_mod]

/-- The timer of `ev` is pending, and expires after `n` more ticks at the next one. -/
structure Due (s : EventSet κ) (ev n : Nat) : Prop where
  timer : (s.event ev).timer = true
  rest : ∃ idx c : Nat, (s.event ev).timerIndex = idx ∧ (s.event ev).timerStepcnt = c + 1 ∧
    n = distance s.coreTimer.bucketCount idx s.coreTimer.dispatchRefer.toNat +
      c * s.coreTimer.bucketCount

/-- One tick brings a pending timer closer, and the last one lets it expire. -/
theorem evtimerDispatch_counts (h : s.Consistent) (hN : s.TwoPower) {n : Nat} (hdue : Due s ev n) :
    (n = 0 → (s.evtimerDispatch.1.event ev).timer = false ∧
        s.evtimerDispatch.1.timeouts ev = s.timeouts ev + 1) ∧
      ∀ m, n = m + 1 → Due s.evtimerDispatch.1 ev m ∧
        s.evtimerDispatch.1.timeouts ev = s.timeouts ev := by
  obtain ⟨htimer, idx, c, hidx, hcount, hn⟩ := hdue
  obtain ⟨b, hlt, hplace, hmem⟩ := h.mem_bucket htimer
  obtain rfl : b = idx := by omega
  obtain ⟨hother, hmore, hlast⟩ := evtimerDispatch_event h ev
  have hsettings := evtimerDispatch_settings h
  generalize s.evtimerDispatch.1 = t at hother hmore hlast hsettings
  have hbuckets : t.coreTimer.bucketCount = s.coreTimer.bucketCount := congrArg Prod.fst hsettings
  have hdist : distance t.coreTimer.bucketCount b t.coreTimer.dispatchRefer.toNat =
      distance s.coreTimer.bucketCount b (s.coreTimer.dispatchRefer.toNat + 1) := by
    have hnext : t.coreTimer.dispatchRefer = s.coreTimer.dispatchRefer + 1 :=
      congrArg (fun x => x.2.2) hsettings
    have hrefer : (s.coreTimer.dispatchRefer + 1).toNat % s.coreTimer.bucketCount =
        (s.coreTimer.dispatchRefer.toNat + 1) % s.coreTimer.bucketCount := by
      rw [BitVec.toNat_add]
      exact Nat.mod_mod_of_dvd _ hN.dvd
    rw [hbuckets, hnext, distance, distance, hrefer]
  rw [evtimerIndex_eq_mod hN] at hother hmore hlast
  by_cases hturn : s.coreTimer.dispatchRefer.toNat % s.coreTimer.bucketCount = b
  · -- the bucket of the event is handled
    rw [hturn] at hmore hlast
    have hzero := (distance_eq_zero hN.pos).mpr hturn
    cases c with
    | zero =>
      refine ⟨fun _ => hlast hmem (by omega), fun m hm => ?_⟩
      omega
    | succ c =>
      obtain ⟨hself, hsame⟩ := hmore hmem (by omega)
      rw [hzero, Nat.succ_mul] at hn
      refine ⟨fun hn0 => ?_, fun m hm => ⟨⟨?_, b, c, ?_, ?_, ?_⟩, hsame⟩⟩
      · have hpos := hN.pos
        omega
      · rw [hself]
        exact htimer
      · rw [hself]
        exact hplace
      · rw [hself]
        show (s.event ev).timerStepcnt - 1 = _
        omega
      · rw [hdist, distance_wrap hlt hturn, hbuckets]
        omega
  · have habsent : ev ∉ s.coreTimer.bucketArray
        (s.coreTimer.dispatchRefer.toNat % s.coreTimer.bucketCount) := by
      intro hin
      have hthere := (h.of_mem_bucket hin).2
      omega
    obtain ⟨hself, hsame⟩ := hother habsent
    have hfar : distance s.coreTimer.bucketCount b s.coreTimer.dispatchRefer.toNat ≠ 0 :=
      mt (distance_eq_zero hN.pos).mp hturn
    refine ⟨fun hn0 => by omega, fun m hm => ⟨⟨?_, b, c, ?_, ?_, ?_⟩, hsame⟩⟩
    · rw [hself]
      exact htimer
    · rw [hself]
      exact hplace
    · rw [hself]
      exact hcount
    · obtain ⟨d, hd⟩ := Nat.exists_eq_succ_of_ne_zero hfar
      rw [hdist, distance_succ hlt hd, hbuckets]
      omega

/-! ## Arming a timer -/

/-- The tick at which a timer with the timeout `tv` is meant to expire. -/
def meantTick (p tv : Nat) : Nat := max 1 (tv / p)

/-- Timeouts that expire a whole revolution late: those of a whole number of revolutions in
full precisions and a remainder. -/
def Late (p N tv : Nat) : Prop := p ≤ tv ∧ N ∣ tv / p ∧ tv % p ≠ 0

instance (p N tv : Nat) : Decidable (Late p N tv) := inferInstanceAs (Decidable (_ ∧ _ ∧ _))

/-- The step count that `evtimer_append` finds, on natural numbers. -/
theorem stepcntFor_eq (t : EvTimer) {p tv : Nat} (hp : t.maxPrecision = p) :
    t.stepcntFor tv = ((max p tv / (p * t.bucketCount) +
      if max p tv % (p * t.bucketCount) = 0 then 0 else 1 : Nat) : Int) := by
  have hround : t.roundedUp tv = ((max p tv : Nat) : Int) := by
    unfold EvTimer.roundedUp
    rw [hp]
    split <;> omega
  unfold EvTimer.stepcntFor
  rw [hround, hp]
  -- on natural numbers the divisions that round towards zero are the usual ones
  have hdiv : ((max p tv : Nat) : Int).tdiv ((p : Int) * (t.bucketCount : Int)) =
      ((max p tv / (p * t.bucketCount) : Nat) : Int) := by
    rw [← Int.natCast_mul]
    rfl
  have hmod : ((max p tv : Nat) : Int).tmod ((p : Int) * (t.bucketCount : Int)) =
      ((max p tv % (p * t.bucketCount) : Nat) : Int) := by
    rw [← Int.natCast_mul]
    rfl
  dsimp only
  rw [hdiv, hmod]
  by_cases hzero : max p tv % (p * t.bucketCount) = 0
  · rw [if_neg (by omega), if_pos hzero]
    rfl
  · rw [if_pos (by omega), if_neg hzero]
    rfl

/-- The number of whole precisions in a timeout that was rounded up. -/
theorem meantTick_eq {p : Nat} (hp : 0 < p) (tv : Nat) : meantTick p tv = max p tv / p := by
  unfold meantTick
  rcases Nat.lt_or_ge tv p with hlt | hge
  · rw [Nat.div_eq_of_lt hlt, Nat.max_eq_left (Nat.le_of_lt hlt), Nat.div_self hp]
    rfl
  · rw [Nat.max_eq_right hge]
    exact Nat.max_eq_right (Nat.div_pos hge hp)

theorem late_iff {p : Nat} (hp : 0 < p) (N tv : Nat) :
    Late p N tv ↔ meantTick p tv % N = 0 ∧ max p tv % p ≠ 0 := by
  rw [meantTick_eq hp, Late, Nat.dvd_iff_mod_eq_zero]
  rcases Nat.lt_or_ge tv p with hlt | hge
  · rw [Nat.max_eq_left (Nat.le_of_lt hlt), Nat.mod_self]
    exact iff_of_false (fun h => by omega) (fun h => h.2 rfl)
  · rw [Nat.max_eq_right hge]
    exact ⟨fun h => h.2, fun h => ⟨hge, h⟩⟩

theorem pred_mod {N k : Nat} (hN : 0 < N) (hk : 0 < k) :
    (k - 1) % N = if k % N = 0 then N - 1 else k % N - 1 := by
  have hlt := Nat.mod_lt (k - 1) hN
  have hsucc := succ_mod N (k - 1) hN
  rw [Nat.sub_add_cancel hk] at hsucc
  rw [hsucc]
  split <;> split <;> omega

/-- The bucket and the step count together: how many ticks pass. -/
theorem revolutions_eq {p N : Nat} (hp : 0 < p) (hN : 0 < N) (tv : Nat) :
    ∃ c, (max p tv / (p * N) + if max p tv % (p * N) = 0 then 0 else 1) = c + 1 ∧
      (meantTick p tv - 1) % N + c * N + 1 =
        meantTick p tv + if Late p N tv then N else 0 := by
  have hk : 0 < meantTick p tv := Nat.lt_of_lt_of_le Nat.one_pos (Nat.le_max_left _ _)
  have hdiv : max p tv / (p * N) = meantTick p tv / N := by
    rw [meantTick_eq hp, Nat.div_div_eq_div_mul]
  have hmod : max p tv % (p * N) = 0 ↔ max p tv % p = 0 ∧ meantTick p tv % N = 0 := by
    rw [Nat.mod_mul, ← meantTick_eq hp]
    constructor
    · intro h
      have hboth := Nat.add_eq_zero_iff.mp h
      exact ⟨hboth.1, (Nat.mul_eq_zero.mp hboth.2).resolve_left (by omega)⟩
    · rintro ⟨hrest, hrevolution⟩
      rw [hrest, hrevolution, Nat.mul_zero]
  have hpred := pred_mod hN hk
  have hsplit := Nat.div_add_mod (meantTick p tv) N
  have hlate := late_iff hp N tv
  rw [hdiv]
  generalize meantTick p tv = k at hk hmod hpred hsplit hlate
  rw [Nat.mul_comm] at hsplit
  by_cases hrevolution : k % N = 0
  · rw [if_pos hrevolution] at hpred
    by_cases hrest : max p tv % p = 0
    · -- a whole number of revolutions: the last one ends in the bucket before
      have hfull : 0 < k / N := by
        rcases Nat.eq_zero_or_pos (k / N) with hzero | hpos
        · rw [hzero] at hsplit; omega
        · exact hpos
      refine ⟨k / N - 1, by rw [if_pos (hmod.mpr ⟨hrest, hrevolution⟩)]; omega, ?_⟩
      rw [if_neg (mt hlate.mp fun h => h.2 hrest), hpred, Nat.sub_mul]
      have hle : N ≤ k / N * N := Nat.le_mul_of_pos_left N hfull
      omega
    · refine ⟨k / N, by rw [if_neg (mt hmod.mp fun h => hrest h.1)], ?_⟩
      rw [if_pos (hlate.mpr ⟨hrevolution, hrest⟩), hpred]
      omega
  · rw [if_neg hrevolution] at hpred
    refine ⟨k / N, by rw [if_neg (mt hmod.mp fun h => hrevolution h.2)], ?_⟩
    rw [if_neg (mt hlate.mp fun h => hrevolution h.1), hpred]
    omega

/-- The bucket that `evtimer_append` finds. -/
theorem indexFor_eq (hN : s.TwoPower) {p tv : Nat} (hp : 0 < p)
    (hprecision : s.coreTimer.maxPrecision = p) :
    s.coreTimer.indexFor tv =
      (s.coreTimer.dispatchRefer.toNat + (meantTick p tv - 1)) % s.coreTimer.bucketCount := by
  have hk : 0 < meantTick p tv := Nat.lt_of_lt_of_le Nat.one_pos (Nat.le_max_left _ _)
  have hwhole : (s.coreTimer.roundedUp tv).tdiv s.coreTimer.maxPrecision = (meantTick p tv : Int) := by
    have hround : s.coreTimer.roundedUp tv = ((max p tv : Nat) : Int) := by
      unfold EvTimer.roundedUp
      rw [hprecision]
      split <;> omega
    rw [hround, hprecision, meantTick_eq hp]
    rfl
  -- the counter wraps at `2 ^ 32`, which the number of buckets divides
  have hwrap : ∀ a : Nat, a % 2 ^ 32 ≡ a [MOD s.coreTimer.bucketCount] := fun a =>
    (Nat.mod_modEq a (2 ^ 32)).of_dvd hN.dvd
  have hsum : 2 ^ 32 - 1 + s.coreTimer.dispatchRefer.toNat + meantTick p tv =
      2 ^ 32 + (s.coreTimer.dispatchRefer.toNat + (meantTick p tv - 1)) := by omega
  rw [EvTimer.indexFor, hwhole, evtimerIndex_eq_mod hN, BitVec.toNat_add, BitVec.toNat_sub,
    BitVec.ofInt_natCast, BitVec.toNat_ofNat]
  calc _ ≡ (2 ^ 32 - 1 + s.coreTimer.dispatchRefer.toNat) % 2 ^ 32 + meantTick p tv % 2 ^ 32
        [MOD s.coreTimer.bucketCount] := hwrap _
    _ ≡ 2 ^ 32 - 1 + s.coreTimer.dispatchRefer.toNat + meantTick p tv
        [MOD s.coreTimer.bucketCount] := (hwrap _).add (hwrap _)
    _ ≡ s.coreTimer.dispatchRefer.toNat + (meantTick p tv - 1) [MOD s.coreTimer.bucketCount] := by
      rw [hsum]
      exact ((Nat.modEq_zero_iff_dvd.mpr hN.dvd).add_right _).trans (by rw [Nat.zero_add])

/-- Set the timeout of an event and put it into the wheel, as `evsets_add` does. -/
def arm (s : EventSet κ) (ev : Nat) (tv : Int) : EventSet κ :=
  (s.modify ev fun e => { e with evsets := true, timerMsecs := tv }).eventQueueInsert ev .timer

theorem arm_event (s : EventSet κ) (ev : Nat) {tv : Int} (htv : 0 ≤ tv)
    (hfree : (s.event ev).timer = false) :
    (s.arm ev tv).event ev = { s.event ev with
      evsets := true
      timerMsecs := tv
      timer := true
      timerIndex := s.coreTimer.indexFor tv
      timerStepcnt := s.coreTimer.stepcntFor tv } := by
  have hnot : ¬tv < 0 := Int.not_lt.mpr htv
  simp only [arm, eventQueueInsert, status, setStatus, evtimerAppend, modify_event,
    modify_coreTimer, if_true, hfree, Bool.false_eq_true, if_false, hnot, setTimer_event]

theorem arm_settings (s : EventSet κ) (ev : Nat) (tv : Int) : (s.arm ev tv).settings = s.settings :=
  eventQueueInsert_settings _ ev .timer

theorem arm_trace (s : EventSet κ) (ev : Nat) (tv : Int) : (s.arm ev tv).trace = s.trace :=
  eventQueueInsert_trace _ ev .timer

theorem Consistent.arm (h : s.Consistent) (ev : Nat) {tv : Int} (htv : 0 ≤ tv) :
    (s.arm ev tv).Consistent := by
  unfold EventSet.arm
  apply Consistent.insert
  · exact h.modify (by intro e; exact ⟨rfl, rfl, rfl, rfl, fun _ => rfl⟩)
  · simp
  · intro _
    simpa using htv

/-- How many ticks an event waits that is armed now. -/
theorem arm_due (s : EventSet κ) {ev : Nat} (tv : Nat) (hN : s.TwoPower) {p : Nat} (hp : 0 < p)
    (hprecision : s.coreTimer.maxPrecision = p) (hfree : (s.event ev).timer = false) :
    ∃ n, Due (s.arm ev tv) ev n ∧ n + 1 = meantTick p tv +
      if Late p s.coreTimer.bucketCount tv then s.coreTimer.bucketCount else 0 := by
  obtain ⟨c, hcount, hticks⟩ := revolutions_eq hp hN.pos tv
  have hevent := arm_event s ev (Int.natCast_nonneg tv) hfree
  have hbuckets : (s.arm ev tv).coreTimer.bucketCount = s.coreTimer.bucketCount :=
    congrArg Prod.fst (arm_settings s ev tv)
  have hrefer : (s.arm ev tv).coreTimer.dispatchRefer = s.coreTimer.dispatchRefer :=
    congrArg (fun x => x.2.2) (arm_settings s ev tv)
  refine ⟨(meantTick p tv - 1) % s.coreTimer.bucketCount + c * s.coreTimer.bucketCount, ⟨?_,
    s.coreTimer.indexFor tv, c, ?_, ?_, ?_⟩, hticks⟩
  · rw [hevent]
  · rw [hevent]
  · rw [hevent]
    show s.coreTimer.stepcntFor tv = _
    rw [stepcntFor_eq s.coreTimer hprecision, hcount]
    rfl
  · rw [hbuckets, hrefer, indexFor_eq hN hp hprecision, distance_add _ _ _ hN.pos]

end EventSet

/-! ## Runs of the wheel -/

/-- The inputs of a wheel. -/
inductive WheelInput where
  /-- `evtimer_append`, after `timer_msecs` was set. -/
  | append (ev : Nat) (tv : Int)
  /-- `evtimer_remove` -/
  | remove (ev : Nat)
  /-- `evtimer_dispatch` -/
  | dispatch
deriving DecidableEq, Repr

/-- The input does not arm the event or take it out. -/
def WheelInput.Leaves (ev : Nat) : WheelInput → Prop
  | .append a _ => a ≠ ev
  | .remove a => a ≠ ev
  | .dispatch => True

instance (ev : Nat) (i : WheelInput) : Decidable (i.Leaves ev) := by
  cases i <;> unfold WheelInput.Leaves <;> infer_instance

/-- The number of ticks in a list of inputs. -/
def ticks (is : List WheelInput) : Nat := is.count .dispatch

namespace EventSet

variable {κ : Type}

/-- A wheel on its own: `evtimer_create`, with any tick counter. -/
def evtimerCreate (p N : Nat) (refer : BitVec 32) : EventSet κ where
  timerPrecision := p
  expireTime := 0
  coreTimer := { bucketCount := N, maxPrecision := p, dispatchRefer := refer }

/-- One step of a wheel; an event is only appended if it is not there. -/
def wheelStep (s : EventSet κ) : WheelInput → Option (EventSet κ)
  | .append ev tv =>
    if (s.event ev).timer = false ∧ 0 ≤ tv then some (s.arm ev tv) else none
  | .remove ev => some (s.eventQueueRemove ev .timer)
  | .dispatch => some s.evtimerDispatch.1

/-- What every run of a wheel keeps. -/
structure Turning (p N : Nat) (s : EventSet κ) : Prop where
  consistent : s.Consistent
  buckets : s.coreTimer.bucketCount = N
  precision : s.coreTimer.maxPrecision = p

theorem Turning.twoPower {p N : Nat} {s : EventSet κ} (h : Turning p N s) (hN : ∃ k ≤ 31, N = 2 ^ k) :
    s.TwoPower := by
  obtain ⟨k, hle, hk⟩ := hN
  exact ⟨k, hle, h.buckets.trans hk⟩

/-- A change that leaves the settings alone. -/
theorem Turning.of_settings {p N : Nat} {s t : EventSet κ} (h : Turning p N s) (ht : t.Consistent)
    (hsettings : t.settings = s.settings) : Turning p N t :=
  ⟨ht, (congrArg Prod.fst hsettings).trans h.buckets,
    (congrArg (fun x => x.2.1) hsettings).trans h.precision⟩

theorem Turning.step {p N : Nat} {s t : EventSet κ} {i : WheelInput} (h : Turning p N s)
    (hstep : s.wheelStep i = some t) : Turning p N t := by
  cases i with
  | append ev tv =>
    unfold wheelStep at hstep
    dsimp only at hstep
    split at hstep
    · rename_i hguard
      cases hstep
      exact h.of_settings (h.consistent.arm ev hguard.2) (arm_settings s ev tv)
    · cases hstep
  | remove ev =>
    cases hstep
    exact h.of_settings (h.consistent.remove ev .timer) (eventQueueRemove_settings s ev .timer)
  | dispatch =>
    cases hstep
    have hsettings := evtimerDispatch_settings h.consistent
    exact ⟨h.consistent.evtimerDispatch, (congrArg Prod.fst hsettings).trans h.buckets,
      (congrArg (fun x => x.2.1) hsettings).trans h.precision⟩

/-- The fields of an event that concern its timer are the same. -/
structure SameTimer (e e' : Event κ) : Prop where
  timer : e'.timer = e.timer
  index : e'.timerIndex = e.timerIndex
  stepcnt : e'.timerStepcnt = e.timerStepcnt
  msecs : e'.timerMsecs = e.timerMsecs

theorem SameTimer.of_eq {e e' : Event κ} (h : e' = e) : SameTimer e e' := by
  subst h
  exact ⟨rfl, rfl, rfl, rfl⟩

theorem Due.sameTimer {s t : EventSet κ} {ev n : Nat} (h : Due s ev n)
    (hsame : SameTimer (s.event ev) (t.event ev)) (hsettings : t.settings = s.settings) :
    Due t ev n := by
  obtain ⟨htimer, idx, c, hidx, hcount, hn⟩ := h
  have hbuckets : t.coreTimer.bucketCount = s.coreTimer.bucketCount := congrArg Prod.fst hsettings
  have hrefer : t.coreTimer.dispatchRefer = s.coreTimer.dispatchRefer :=
    congrArg (fun x => x.2.2) hsettings
  exact ⟨by rw [hsame.timer]; exact htimer, idx, c, by rw [hsame.index]; exact hidx,
    by rw [hsame.stepcnt]; exact hcount, by rw [hbuckets, hrefer]; exact hn⟩

/-- Arming another event, or taking it out. -/
theorem wheelStep_other {s t : EventSet κ} {i : WheelInput} {ev : Nat} (hleaves : i.Leaves ev)
    (hi : i ≠ .dispatch) (hstep : s.wheelStep i = some t) :
    t.event ev = s.event ev ∧ t.settings = s.settings ∧ t.trace = s.trace := by
  cases i with
  | append a tv =>
    have ha : ev ≠ a := fun h => hleaves h.symm
    unfold wheelStep at hstep
    dsimp only at hstep
    split at hstep
    · cases hstep
      have honly := (modify_only s a fun e => { e with evsets := true, timerMsecs := tv }).trans
        (eventQueueInsert_only _ a .timer)
      exact ⟨honly.event ev ha, arm_settings s a tv, arm_trace s a tv⟩
    · cases hstep
  | remove a =>
    have ha : ev ≠ a := fun h => hleaves h.symm
    cases hstep
    exact ⟨(eventQueueRemove_only s a .timer).event ev ha, eventQueueRemove_settings s a .timer,
      eventQueueRemove_trace s a .timer⟩
  | dispatch => exact absurd rfl hi

/-- A tick leaves an event alone that is not in the wheel. -/
theorem evtimerDispatch_absent {s : EventSet κ} (h : s.Consistent) {ev : Nat}
    (hfree : (s.event ev).timer = false) :
    s.evtimerDispatch.1.event ev = s.event ev ∧
      s.evtimerDispatch.1.timeouts ev = s.timeouts ev := by
  exact (evtimerDispatch_event h ev).1 (h.not_mem_bucket hfree _)

/-- After `m` of the `n + 1` ticks that a timer waits: it is pending, or it expired once. -/
structure Awaits (base ev n m : Nat) (s : EventSet κ) : Prop where
  pending : m ≤ n → Due s ev (n - m) ∧ s.timeouts ev = base
  expired : n < m → (s.event ev).timer = false ∧ s.timeouts ev = base + 1

theorem Awaits.step {p N base ev n m : Nat} {s t : EventSet κ} {i : WheelInput}
    (h : Awaits base ev n m s) (hs : Turning p N s) (hN : s.TwoPower) (hleaves : i.Leaves ev)
    (hstep : s.wheelStep i = some t) :
    Awaits base ev n (m + if i = .dispatch then 1 else 0) t := by
  by_cases hi : i = .dispatch
  · subst hi
    cases hstep
    rw [if_pos rfl]
    -- a tick counts for the event while it waits, and not for one that has expired
    rcases Nat.lt_or_ge n m with hdone | hopen
    · obtain ⟨hfree, htimeouts⟩ := h.expired hdone
      obtain ⟨hevent, hsame⟩ := evtimerDispatch_absent hs.consistent hfree
      exact ⟨fun hm => by omega, fun _ => ⟨by rw [hevent]; exact hfree, hsame.trans htimeouts⟩⟩
    · obtain ⟨hdue, htimeouts⟩ := h.pending hopen
      obtain ⟨hlast, hmore⟩ := evtimerDispatch_counts hs.consistent hN hdue
      refine ⟨fun hm => ?_, fun hm => ?_⟩
      · obtain ⟨hnext, hsame⟩ := hmore (n - (m + 1)) (by omega)
        exact ⟨hnext, hsame.trans htimeouts⟩
      · obtain ⟨hfree, hfired⟩ := hlast (by omega)
        exact ⟨hfree, by rw [hfired, htimeouts]⟩
  · rw [if_neg hi, Nat.add_zero]
    obtain ⟨hevent, hsettings, htrace⟩ := wheelStep_other hleaves hi hstep
    refine ⟨fun hm => ?_, fun hm => ?_⟩
    · obtain ⟨hdue, htimeouts⟩ := h.pending hm
      exact ⟨hdue.sameTimer (.of_eq hevent) hsettings, (timeouts_congr htrace ev).trans htimeouts⟩
    · obtain ⟨hfree, htimeouts⟩ := h.expired hm
      exact ⟨by rw [hevent]; exact hfree, (timeouts_congr htrace ev).trans htimeouts⟩

theorem Awaits.run {p N base ev n : Nat} {s t : EventSet κ} {is : List WheelInput}
    (hrun : Lib.GuardedRun wheelStep (fun _ i => i.Leaves ev) s is t)
    (h : Awaits base ev n 0 s) (hs : Turning p N s) (hN : ∃ k ≤ 31, N = 2 ^ k) :
    Awaits base ev n (ticks is) t ∧ Turning p N t := by
  induction hrun with
  | nil => exact ⟨h, hs⟩
  | @snoc u v is i _ hleaves hstep ih =>
    obtain ⟨hu, hturning⟩ := ih
    refine ⟨?_, hturning.step hstep⟩
    have hnext := hu.step hturning (hturning.twoPower hN) hleaves hstep
    have hticks : ticks (is ++ [i]) = ticks is + if i = .dispatch then 1 else 0 := by
      rw [ticks, ticks, List.count_append, List.count_singleton]
      cases i <;> rfl
    rwa [hticks]

theorem evtimerCreate_turning {p N : Nat} (hpos : 1 ≤ N) (hfits : N ≤ 2 ^ 32) (refer : BitVec 32) :
    Turning p N (evtimerCreate p N refer : EventSet κ) := by
  refine ⟨⟨fun a => ⟨rfl, rfl, fun b => rfl, ?_, ?_⟩, hpos, hfits⟩, rfl, rfl⟩
  · intro h
    cases h
  · intro h
    cases h

/-- A wheel can always tick. -/
theorem ticks_run (s : EventSet κ) (ev m : Nat) : ∃ js t,
    Lib.GuardedRun wheelStep (fun _ i => i.Leaves ev) s js t ∧ ticks js = m := by
  induction m with
  | zero => exact ⟨[], s, .nil s, rfl⟩
  | succ m ih =>
    obtain ⟨js, t, hrun, hticks⟩ := ih
    have hleaves : WheelInput.Leaves ev .dispatch := trivial
    refine ⟨js ++ [.dispatch], _, .snoc hrun hleaves rfl, ?_⟩
    rw [ticks, List.count_append, List.count_singleton]
    exact congrArg (· + 1) hticks

/-! ## Main result -/

/-- Take an event with the timeout `tv` that is put into a wheel at any time. It is activated
with `EV_TIMEOUT` by the tick number `max 1 (tv / p)` after that, once, and by no other tick,
whatever is done to other events, if and only if `tv` is not a whole number of revolutions
in full precisions and a remainder. -/
theorem expires_at_tick_iff (p k : Nat) (hp : 0 < p) (hfits : p * 2 ^ k < 2 ^ 31)
    (refer : BitVec 32) (is : List WheelInput) (s : EventSet κ)
    (hrun : Lib.Run wheelStep (evtimerCreate p (2 ^ k) refer) is s) (ev tv : Nat)
    (hfree : (s.event ev).timer = false) :
    (∀ js t, Lib.GuardedRun wheelStep (fun _ i => i.Leaves ev) (s.arm ev tv) js t →
        t.timeouts ev = s.timeouts ev + if max 1 (tv / p) ≤ ticks js then 1 else 0) ↔
      ¬(p ≤ tv ∧ 2 ^ k ∣ tv / p ∧ tv % p ≠ 0) := by
  have hbound : 2 ^ k < 2 ^ 31 := Nat.lt_of_le_of_lt (Nat.le_mul_of_pos_left _ hp) hfits
  have hk : k ≤ 31 := Nat.le_of_lt ((Nat.pow_lt_pow_iff_right (by decide)).mp hbound)
  have hturning : Turning p (2 ^ k) s := hrun.invariant (I := Turning p (2 ^ k))
    (evtimerCreate_turning (Nat.two_pow_pos k) (by omega) refer)
    fun _ _ _ h _ hstep => h.step hstep
  have hpower : s.TwoPower := ⟨k, hk, hturning.buckets⟩
  obtain ⟨n, hdue, hn⟩ := arm_due s tv hpower hp hturning.precision hfree
  rw [hturning.buckets] at hn
  have hstart : Awaits (s.timeouts ev) ev n 0 (s.arm ev tv) :=
    ⟨fun _ => ⟨hdue, timeouts_congr (arm_trace s ev tv) ev⟩, fun h => by omega⟩
  have harmed : Turning p (2 ^ k) (s.arm ev tv) :=
    hturning.of_settings (hturning.consistent.arm ev (Int.natCast_nonneg tv)) (arm_settings s ev tv)
  have hall : ∀ js t, Lib.GuardedRun wheelStep (fun _ i => i.Leaves ev) (s.arm ev tv) js t →
      t.timeouts ev = s.timeouts ev + if n + 1 ≤ ticks js then 1 else 0 := by
    intro js t hjs
    obtain ⟨hawaits, -⟩ := hstart.run hjs harmed ⟨k, hk, rfl⟩
    split
    · exact (hawaits.expired (by omega)).2
    · exact (hawaits.pending (by omega)).2
  constructor
  · intro hmeant hlate
    -- after the meant number of ticks and nothing else, the event is still pending
    rw [if_pos (show Late p (2 ^ k) tv from hlate)] at hn
    obtain ⟨js, t, hjs, hticks⟩ := ticks_run (s.arm ev tv) ev (meantTick p tv)
    have hwanted := hmeant js t hjs
    have hfound := hall js t hjs
    have hpos := Nat.two_pow_pos k
    rw [if_pos (show max 1 (tv / p) ≤ ticks js from Nat.le_of_eq hticks.symm)] at hwanted
    rw [if_neg (by omega)] at hfound
    omega
  · intro hlate js t hjs
    rw [if_neg (show ¬Late p (2 ^ k) tv from hlate)] at hn
    rw [hall js t hjs, hn]
    rfl

/-- The tick counter is about to wrap around, and another event shares the bucket. -/
def sharedBucket : List WheelInput := [.append 4 65, .dispatch]

theorem expires_at_tick_iff_sharedBucket :
    ∃ s t : EventSet Nat, Lib.exec wheelStep (evtimerCreate 10 (2 ^ 2) 0xFFFFFFFF) sharedBucket = some s ∧
      Lib.guardedExec wheelStep (fun _ i => i.Leaves 3) (s.arm 3 25)
        [.dispatch, .remove 4, .dispatch] = some t ∧ t.timeouts 3 = 1 :=
  ⟨_, _, rfl, rfl, (expires_at_tick_iff 10 2 (by decide) (by decide) 0xFFFFFFFF sharedBucket _
    (Lib.run_iff_exec.mpr rfl) 3 25 rfl).mpr (by decide) [.dispatch, .remove 4, .dispatch] _
    (Lib.GuardedRun.of_exec rfl)⟩

/-- With a precision of 10 and 4 buckets, a timeout of 41 is meant to expire at the fourth
tick, and expires at the eighth. -/
theorem expires_at_tick_41_fails :
    ∃ t u : EventSet Nat,
      Lib.exec wheelStep ((evtimerCreate 10 4 0).arm 3 41) (List.replicate 4 .dispatch) = some t ∧
      t.timeouts 3 = 0 ∧ max 1 (41 / 10) = 4 ∧
      Lib.exec wheelStep t (List.replicate 4 .dispatch) = some u ∧ u.timeouts 3 = 1 :=
  ⟨_, _, rfl, by decide +kernel, rfl, rfl, by decide +kernel⟩

end EventSet

end Evlite
