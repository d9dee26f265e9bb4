import Evlite.Session.Manager

/-!
# How Long an Id Stays Unambiguous

An id names a slot and the version the slot had when the id was given out. The version is
counted up whenever the slot is given back, so that the id of a removed session resolves to
nothing, until the 16 bits of the version have gone round once.

## Main results

- `Tracked`: the version of a slot is the number of its removals, as far as 16 bits tell.
- `get_issued`: what an id resolves to, for good.
- `issued_id_resolves`: an id resolves to its session until that session is removed, and to
  nothing from then on before its slot has been given back `2 ^ 16` times.
- `reused_id`: after `2 ^ 16` removals the id belongs to another session.
-/

namespace Evlite.Sessions

open Lib

/-- How often the slot of an id was given back since the id was given out. -/
def removedSince (s : Sessions) (e : Issue) : Nat := s.removals (sidSeq e.sid).toNat - e.removals

/-- What the ids that were given out have to do with the slots they name. -/
structure Tracked (s : Sessions) : Prop where
  version : ∀ i < s.manager.capacity.toNat,
    (s.manager.table i).version = BitVec.ofNat 16 (s.removals i)
  /-- Slots that do not exist yet were never given back. -/
  fresh : ∀ i, s.manager.capacity.toNat ≤ i → s.removals i = 0
  slot : ∀ e ∈ s.issued, (sidSeq e.sid).toNat < s.manager.capacity.toNat
  sid : ∀ e ∈ s.issued, sidVersion e.sid = BitVec.ofNat 16 e.removals
  removals : ∀ e ∈ s.issued, e.removals ≤ s.removals (sidSeq e.sid).toNat
  /-- Before the next removal the slot holds the session. -/
  session : ∀ e ∈ s.issued, e.removals = s.removals (sidSeq e.sid).toNat →
    s.manager.Used (sidSeq e.sid).toNat ∧
      (s.manager.table (sidSeq e.sid).toNat).session = e.session

/-! ## One step -/

variable {s s' : Sessions} {free : List Nat}

/-- Changing neither the manager nor the records. -/
theorem Tracked.of_eq (h : s.Tracked) (hmanager : s'.manager = s.manager)
    (hremovals : s'.removals = s.removals) (hissued : s'.issued = s.issued) : s'.Tracked where
  version := by rw [hmanager, hremovals]; exact h.version
  fresh := by rw [hmanager, hremovals]; exact h.fresh
  slot := by rw [hmanager, hissued]; exact h.slot
  sid := by rw [hissued]; exact h.sid
  removals := by rw [hremovals, hissued]; exact h.removals
  session := by rw [hmanager, hremovals, hissued]; exact h.session

/-- Growing the table adds slots of version `0`. -/
theorem Tracked.grows (h : s.Tracked) {m : SessionManager} (hgrows : s.manager.Grows m) :
    Tracked { s with manager := m } := by
  obtain ⟨-, new, hlt, -, rfl⟩ := hgrows
  obtain ⟨hold, hnew, -⟩ := SessionManager.initSlots_spec s.manager.table hlt
  refine ⟨fun i hi => ?_, fun i hi => h.fresh i (hlt.le.trans hi),
    fun e he => (h.slot e he).trans hlt, h.sid, h.removals, fun e he heq => ?_⟩
  · simp only
    rcases Nat.lt_or_ge i s.manager.capacity.toNat with hlo | hlo
    · rw [hold i hlo]
      exact h.version i hlo
    · rw [(hnew i hlo hi).2, h.fresh i hlo]
      rfl
  · obtain ⟨⟨hlo, hactive⟩, hsession⟩ := h.session e he heq
    simp only
    rw [SessionManager.Used]
    simp only
    rw [hold _ hlo]
    exact ⟨⟨hlo.trans hlt, hactive⟩, hsession⟩

/-- Taking a slot records the id that names it. -/
theorem Tracked.take (h : s.Tracked) (hvalid : s.manager.Valid s.id free)
    (hhead : s.manager.freeHead ≠ invalidSlotIndex) (session : BitVec 64)
    (id : BitVec 64 → BitVec 64) :
    let r := s.manager.take session
    Tracked { s with
      manager := r.1
      id := id
      issued := s.issued ++ [⟨r.2, session, s.removals (sidSeq r.2).toNat⟩] } := by
  obtain ⟨-, -, -, hlt, hinactive⟩ := hvalid.freeHead hhead
  have hcap := hvalid.capacity
  intro r
  have hseq : sidSeq r.2 = s.manager.freeHead :=
    sidSeq_makeSid (Nat.lt_of_lt_of_le hlt hcap.2)
  have hver : sidVersion r.2 = (s.manager.table s.manager.freeHead.toNat).version :=
    sidVersion_makeSid
  have hother : ∀ i, i ≠ s.manager.freeHead.toNat → r.1.table i = s.manager.table i :=
    fun i hi => Function.update_of_ne hi ..
  have hself : r.1.table s.manager.freeHead.toNat =
      { s.manager.table s.manager.freeHead.toNat with isActive := true, link := session } :=
    Function.update_self ..
  refine ⟨fun i hi => ?_, h.fresh, fun e he => ?_, fun e he => ?_, fun e he => ?_,
    fun e he heq => ?_⟩
  · simp only
    rcases eq_or_ne i s.manager.freeHead.toNat with rfl | hne
    · rw [hself]
      exact h.version _ hi
    · rw [hother i hne]
      exact h.version i hi
  · rcases List.mem_append.mp he with he | he
    · exact h.slot e he
    · obtain rfl := List.mem_singleton.mp he
      rw [hseq]
      exact hlt
  · rcases List.mem_append.mp he with he | he
    · exact h.sid e he
    · obtain rfl := List.mem_singleton.mp he
      simp only
      rw [hver, hseq]
      exact h.version _ hlt
  · rcases List.mem_append.mp he with he | he
    · exact h.removals e he
    · obtain rfl := List.mem_singleton.mp he
      exact Nat.le_refl _
  · rcases List.mem_append.mp he with he | he
    · obtain ⟨hused, hsession⟩ := h.session e he heq
      -- the slot of an id that is still good was in use, the free one was not
      have hne : (sidSeq e.sid).toNat ≠ s.manager.freeHead.toNat := by
        intro hsame
        have hactive := hused.2
        rw [hsame, hinactive] at hactive
        cases hactive
      simp only
      rw [SessionManager.Used, hother _ hne]
      exact ⟨hused, hsession⟩
    · obtain rfl := List.mem_singleton.mp he
      simp only
      rw [SessionManager.Used, hseq, hself]
      exact ⟨⟨hlt, rfl⟩, rfl⟩

/-- Giving back a slot counts its version and its removals up together. -/
theorem Tracked.release (h : s.Tracked) {seq : BitVec 32}
    (hlt : seq.toNat < s.manager.capacity.toNat) (id : BitVec 64 → BitVec 64) :
    Tracked { s with
      manager := s.manager.release seq
      id := id
      removals := Function.update s.removals seq.toNat (s.removals seq.toNat + 1) } := by
  have hother : ∀ i, i ≠ seq.toNat → (s.manager.release seq).table i = s.manager.table i :=
    fun i hi => Function.update_of_ne hi ..
  refine ⟨fun i hi => ?_, fun i hi => ?_, h.slot, h.sid, fun e he => ?_, fun e he heq => ?_⟩
  · simp only
    rcases eq_or_ne i seq.toNat with rfl | hne
    · rw [Function.update_self, BitVec.ofNat_add, ← h.version _ hlt]
      -- the version of the slot counts one up, like the number of removals
      have hself : (s.manager.release seq).table seq.toNat = _ := Function.update_self ..
      rw [hself, Slot.version_setNextFree]
      rfl
    · rw [hother i hne, Function.update_of_ne hne]
      exact h.version i hi
  · simp only
    have hge : s.manager.capacity.toNat ≤ i := hi
    rw [Function.update_of_ne (by omega)]
    exact h.fresh i hi
  · simp only
    have hle := h.removals e he
    rcases eq_or_ne (sidSeq e.sid).toNat seq.toNat with hsame | hne
    · rw [hsame] at hle ⊢
      rw [Function.update_self]
      omega
    · rw [Function.update_of_ne hne]
      exact hle
  · simp only at heq ⊢
    have hle := h.removals e he
    rcases eq_or_ne (sidSeq e.sid).toNat seq.toNat with hsame | hne
    · -- an id of this slot has one more removal behind it, and no claim on the slot
      rw [hsame] at hle heq
      rw [Function.update_self] at heq
      omega
    · rw [Function.update_of_ne hne] at heq
      rw [SessionManager.Used, hother _ hne]
      exact h.session e he heq

theorem Tracked.step {input : ManagerInput} (h : s.Tracked)
    (hvalid : s.manager.Valid s.id free) (hstep : s.step input = some s') : s'.Tracked := by
  cases input with
  | alloc pool session =>
    simp only [Sessions.step] at hstep
    split at hstep
    · rename_i hfree
      obtain ⟨m, hm, halloc⟩ := hvalid.alloc_cases pool hfree
      have hm' : Tracked { s with manager := m } ∧ ∃ free', m.Valid s.id free' := by
        rcases hm with rfl | hgrows
        · exact ⟨h, free, hvalid⟩
        · exact ⟨h.grows hgrows, (hvalid.grows hgrows).1⟩
      obtain ⟨htracked, free', hvalid'⟩ := hm'
      rcases halloc with halloc | ⟨halloc, hhead, -, -⟩
      · rw [halloc] at hstep
        cases hstep
        exact htracked
      · rw [halloc] at hstep
        cases hstep
        exact htracked.take hvalid' hhead session _
    · cases hstep
  | remove session =>
    simp only [Sessions.step] at hstep
    split at hstep
    · rename_i hrc
      cases hstep
      -- the result tells whether the session was the owner
      have howns : s.manager.Owns session (s.id session) := by
        by_contra hnot
        rw [SessionManager.remove, if_neg hnot] at hrc
        exact absurd (show (-1 : Int) = 0 from hrc) (by decide)
      rw [SessionManager.remove, if_pos howns]
      exact h.release (by have := howns.2.1; bv_omega) _
    · rename_i hrc
      cases hstep
      have hnot : ¬ s.manager.Owns session (s.id session) := by
        intro howns
        rw [SessionManager.remove, if_pos howns] at hrc
        exact hrc rfl
      rw [SessionManager.remove, if_neg hnot]
      exact h.of_eq rfl rfl rfl
  | foreign session id =>
    simp only [Sessions.step] at hstep
    split at hstep
    · cases hstep
      exact h.of_eq rfl rfl rfl
    · cases hstep

/-! ## Every run -/

variable {index : BitVec 8} {size : BitVec 32} {id : BitVec 64 → BitVec 64}
  {inputs : List ManagerInput}

theorem start_tracked : (start index size id).Tracked := by
  have hversion : ∀ lo hi i, (initSlots (fun _ => {}) lo hi i).version = 0 := by
    intro lo hi i
    rw [initSlots, Function.update_apply]
    split
    · rw [Slot.version_setNextFree]
      simp only
      split <;> rfl
    · simp only
      split <;> rfl
  refine ⟨fun i _ => ?_, fun _ _ => rfl, fun _ he => ?_, fun _ he => ?_, fun _ he => ?_,
    fun _ he => ?_⟩
  · exact hversion _ _ i
  all_goals cases he

theorem tracked_of_run (hrun : Run step (start index size id) inputs s) :
    s.Tracked ∧ ∃ free, s.manager.Valid s.id free :=
  hrun.invariant (I := fun s => s.Tracked ∧ ∃ free, s.manager.Valid s.id free)
    ⟨start_tracked, SessionManager.create_valid index size id⟩
    fun _ _ _ ⟨htracked, _, hvalid⟩ _ hstep =>
      ⟨htracked.step hvalid hstep, step_valid hvalid hstep⟩

/-- Two numbers have the same low 16 bits exactly if `2 ^ 16` divides their difference. -/
private theorem ofNat_eq_iff {m n : Nat} (hle : m ≤ n) :
    BitVec.ofNat 16 n = BitVec.ofNat 16 m ↔ 2 ^ 16 ∣ n - m := by
  rw [← BitVec.toNat_inj, BitVec.toNat_ofNat, BitVec.toNat_ofNat]
  omega

/-- An id that was given out resolves exactly if its slot is in use and has been given back a
multiple of `2 ^ 16` times since, and then to the session now in the slot. -/
theorem get_issued (hrun : Run step (start index size id) inputs s) {e : Issue}
    (he : e ∈ s.issued) :
    s.manager.get e.sid =
      if s.manager.Used (sidSeq e.sid).toNat ∧ 2 ^ 16 ∣ s.removedSince e then
        (s.manager.table (sidSeq e.sid).toNat).session
      else 0 := by
  obtain ⟨h, free, hvalid⟩ := tracked_of_run hrun
  have hslot := h.slot e he
  have hver : (s.manager.table (sidSeq e.sid).toNat).version = sidVersion e.sid ↔
      2 ^ 16 ∣ s.removedSince e := by
    rw [h.version _ hslot, h.sid e he]
    exact ofNat_eq_iff (h.removals e he)
  rw [SessionManager.get]
  simp only
  rw [if_neg (by bv_omega)]
  split
  · rename_i hfound
    rw [if_pos ⟨⟨hslot, hfound.1⟩, hver.mp hfound.2.1⟩]
  · rename_i hmissing
    rw [if_neg]
    rintro ⟨hused, hdvd⟩
    exact hmissing ⟨hused.2, hver.mpr hdvd, hvalid.session _ hused⟩

/-- An id resolves to the session it was issued for until its slot is given back, that is
until that session is removed. From then on it resolves to no session, as long as the slot
has been given back fewer than `2 ^ 16` times since the id was issued. After as many, it
resolves to what is in the slot then, if it is in use. -/
theorem issued_id_resolves (hrun : Run step (start index size id) inputs s) {e : Issue}
    (he : e ∈ s.issued) :
    (s.removedSince e = 0 → s.manager.get e.sid = e.session) ∧
      (0 < s.removedSince e → s.removedSince e < 2 ^ 16 → s.manager.get e.sid = 0) ∧
      s.manager.get e.sid =
        if s.manager.Used (sidSeq e.sid).toNat ∧ 2 ^ 16 ∣ s.removedSince e then
          (s.manager.table (sidSeq e.sid).toNat).session
        else 0 := by
  obtain ⟨h, -⟩ := tracked_of_run hrun
  have hresolves := get_issued hrun he
  refine ⟨?_, ?_, hresolves⟩
  · intro hkept
    have hle := h.removals e he
    rw [removedSince] at hkept
    obtain ⟨hused, hsession⟩ := h.session e he (by omega)
    rw [hresolves, if_pos ⟨hused, by rw [removedSince, hkept]; exact Nat.dvd_zero _⟩, hsession]
  · intro hpos hlt
    rw [hresolves, if_neg]
    intro ⟨_, hdvd⟩
    have hle := Nat.le_of_dvd hpos hdvd
    omega

/-- A session is removed and its slot goes to another one. -/
def slotReused : List ManagerInput := [.alloc true 0x10, .remove 0x10, .alloc true 0x20]

theorem issued_id_resolves_slotReused :
    ∃ s, Run step (start 0 1 fun _ => 0) slotReused s ∧
      s.issued.map Issue.sid = [makeSid 0 0 0, makeSid 0 1 0] ∧
      s.manager.get (makeSid 0 0 0) = 0 ∧ s.manager.get (makeSid 0 1 0) = 0x20 := by
  have hrun : exec step (start 0 1 fun _ => 0) slotReused = some _ := rfl
  have hfirst := issued_id_resolves (run_iff_exec.mpr hrun) (e := ⟨makeSid 0 0 0, 0x10, 0⟩)
    (.head _)
  have hsecond := issued_id_resolves (run_iff_exec.mpr hrun) (e := ⟨makeSid 0 1 0, 0x20, 1⟩)
    (.tail _ (.head _))
  exact ⟨_, run_iff_exec.mpr hrun, by decide, hfirst.2.1 (by decide) (by decide),
    hsecond.1 (by decide)⟩

/-! ## The version goes round -/

/-- The only slot of a manager is in use. -/
structure Occupied (s : Sessions) (session : BitVec 64) (version : BitVec 16) : Prop where
  index : s.manager.index = 0
  capacity : s.manager.capacity = 1
  freeHead : s.manager.freeHead = invalidSlotIndex
  slot : s.manager.table 0 = ⟨session, version, true⟩
  id : s.id session = makeSid 0 version 0

/-- Removing a session and allocating the next one gives the slot its next version. -/
theorem Occupied.reuse {p q : BitVec 64} {v : BitVec 16} (h : s.Occupied p v) (hp : p ≠ 0)
    (hq : q ≠ 0) : ∃ s₁ s₂, s.step (.remove p) = some s₁ ∧ s₁.step (.alloc true q) = some s₂ ∧
      s₂.Occupied q (v + 1) ∧ s.issued <+: s₂.issued := by
  have hseq : sidSeq (makeSid 0 v 0) = 0 := sidSeq_makeSid (by decide)
  have howns : s.manager.Owns p (s.id p) := by
    rw [SessionManager.Owns, h.id, hseq, h.capacity, show (0 : BitVec 32).toNat = 0 from rfl, h.slot]
    exact ⟨hp, by decide, rfl, rfl⟩
  have hremove : s.manager.remove p (s.id p) = (s.manager.release 0, 0) := by
    rw [SessionManager.remove, if_pos howns, h.id, hseq]
  have hslot : (s.manager.release 0).table 0 =
      (⟨p, v + 1, false⟩ : Slot).setNextFree invalidSlotIndex := by
    simp only [SessionManager.release]
    rw [show (0 : BitVec 32).toNat = 0 from rfl, Function.update_self, h.slot, h.freeHead]
  -- the slot given back is the only free one
  have hfree : (s.manager.release 0).Free q := by
    intro i hi hactive
    have hcap : i < s.manager.capacity.toNat := hi
    rw [h.capacity] at hcap
    obtain rfl : i = 0 := Nat.lt_one_iff.mp hcap
    rw [hslot] at hactive
    cases hactive
  obtain ⟨s₁, hs₁, hmanager, hissued⟩ : ∃ s₁, s.step (.remove p) = some s₁ ∧
      s₁.manager = s.manager.release 0 ∧ s₁.issued = s.issued := by
    simp only [step, hremove]
    exact ⟨_, rfl, rfl, rfl⟩
  have hhead : s₁.manager.freeHead ≠ invalidSlotIndex := by
    rw [hmanager]
    exact show (0 : BitVec 32) ≠ invalidSlotIndex by decide
  have hslot₁ : s₁.manager.table s₁.manager.freeHead.toNat =
      (⟨p, v + 1, false⟩ : Slot).setNextFree invalidSlotIndex := by
    rw [hmanager]
    exact hslot
  obtain ⟨s₂, hs₂, hmanager₂, hid₂, hissued₂⟩ : ∃ s₂, s₁.step (.alloc true q) = some s₂ ∧
      s₂.manager = (s₁.manager.take q).1 ∧ s₂.id q = (s₁.manager.take q).2 ∧
      s₁.issued <+: s₂.issued := by
    simp only [step]
    rw [hmanager, if_pos hfree, ← hmanager, SessionManager.alloc_of_free hhead true hq]
    exact ⟨_, rfl, rfl, Function.update_self .., List.prefix_append ..⟩
  have hindex : s₁.manager.index = 0 := by
    rw [hmanager]
    exact h.index
  refine ⟨s₁, s₂, hs₁, hs₂, ⟨?_, ?_, ?_, ?_, ?_⟩, hissued ▸ hissued₂⟩
  · rw [hmanager₂]
    exact hindex
  · rw [hmanager₂, hmanager]
    exact h.capacity
  · rw [hmanager₂]
    simp only [SessionManager.take]
    rw [hslot₁, Slot.nextFree_setNextFree]
  · have htable : s₂.manager.table s₁.manager.freeHead.toNat =
        { s₁.manager.table s₁.manager.freeHead.toNat with isActive := true, link := q } := by
      rw [hmanager₂]
      exact Function.update_self ..
    rw [hslot₁, hmanager] at htable
    exact htable
  · rw [hid₂]
    simp only [SessionManager.take]
    rw [hslot₁, hindex, hmanager]
    rfl

/-- A session that is allocated, removed and allocated again `n` times. -/
def reuse (n : Nat) : List ManagerInput :=
  .alloc true 0x10 :: (List.replicate n [ManagerInput.remove 0x10, .alloc true 0x10]).flatten

theorem reuse_run (n : Nat) : ∃ s, Run step (start 0 1 fun _ => 0) (reuse n) s ∧
    s.Occupied 0x10 (BitVec.ofNat 16 n) ∧ ⟨makeSid 0 0 0, 0x10, 0⟩ ∈ s.issued := by
  induction n with
  | zero =>
    have hrun : exec step (start 0 1 fun _ => 0) (reuse 0) = some _ := rfl
    exact ⟨_, run_iff_exec.mpr hrun, ⟨rfl, rfl, rfl, rfl, rfl⟩, .head _⟩
  | succ n ih =>
    obtain ⟨s, hrun, hoccupied, hissued⟩ := ih
    obtain ⟨s₁, s₂, hs₁, hs₂, hoccupied₂, hprefix⟩ :=
      hoccupied.reuse (q := 0x10) (by decide) (by decide)
    have hcycle : reuse (n + 1) = reuse n ++ [.remove 0x10] ++ [.alloc true 0x10] := by
      simp [reuse, List.replicate_succ']
    refine ⟨s₂, ?_, ?_, hprefix.subset hissued⟩
    · rw [hcycle]
      exact .snoc (.snoc hrun trivial hs₁) trivial hs₂
    · rw [BitVec.ofNat_add]
      exact hoccupied₂

/-- After `2 ^ 16` removals of its slot the id of a removed session resolves to the session
that is in the slot now. -/
theorem reused_id : ∃ s, Run step (start 0 1 fun _ => 0)
      (reuse 65535 ++ [.remove 0x10] ++ [.alloc true 0x20]) s ∧
    ⟨makeSid 0 0 0, 0x10, 0⟩ ∈ s.issued ∧ s.manager.Free 0x10 ∧
    s.manager.get (makeSid 0 0 0) = 0x20 := by
  obtain ⟨s, hrun, hoccupied, hissued⟩ := reuse_run 65535
  obtain ⟨s₁, s₂, hs₁, hs₂, hoccupied₂, hprefix⟩ :=
    hoccupied.reuse (q := 0x20) (by decide) (by decide)
  have hversion : (BitVec.ofNat 16 65535 + 1 : BitVec 16) = 0 := by decide
  rw [hversion] at hoccupied₂
  refine ⟨s₂, .snoc (.snoc hrun trivial hs₁) trivial hs₂, hprefix.subset hissued, ?_, ?_⟩
  · intro i hi hactive
    rw [hoccupied₂.capacity] at hi
    obtain rfl : i = 0 := Nat.lt_one_iff.mp hi
    rw [hoccupied₂.slot]
    decide
  · rw [SessionManager.get]
    simp only
    rw [show sidSeq (makeSid 0 0 0) = 0 by decide, show sidVersion (makeSid 0 0 0) = 0 by decide,
      hoccupied₂.capacity, show (0 : BitVec 32).toNat = 0 from rfl, hoccupied₂.slot]
    decide

end Evlite.Sessions
