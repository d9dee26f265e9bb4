import Evlite.Lib.Chain
import Evlite.Lib.TransitionSystem
import Evlite.Session.Sid
import Mathlib.Data.Finset.Card
import Mathlib.Data.Finset.Range

/-!
# The Session Manager

The table of slots from which sessions get their ids (`session.c`). Sessions are known by
their addresses. A slot keeps either the address of its session or the index of the next
free slot, in the same 64 bits: the index overwrites the lower half of the address.

Whether `realloc` succeeds and which address the new session has are inputs; address `0`
stands for a session that could not be created. The allocator does not hand out the address
of a session that is in a slot. `issued` and `removals` are not part of the source: they
remember the ids that were given out and how often each slot was given back.

## Main results

- `Valid`: the free list, the count and the ids of the sessions in their slots.
- `manager_invariants`: what holds after every run, whatever is removed.
-/

namespace Evlite

open Lib

/-- `INVALID_SLOT_INDEX` -/
def invalidSlotIndex : BitVec 32 := 0xFFFFFFFF

/-- `MAX_SLOT_CAPACITY` -/
def maxSlotCapacity : BitVec 32 := 1 <<< 24

/-! ## Slots -/

/-- `struct slot` -/
structure Slot where
  /-- The union of `next_free` and `session`. -/
  link : BitVec 64 := 0
  version : BitVec 16 := 0
  isActive : Bool := false
deriving DecidableEq, Repr

namespace Slot

/-- Read `session`. -/
def session (s : Slot) : BitVec 64 := s.link

/-- Read `next_free`. -/
def nextFree (s : Slot) : BitVec 32 := s.link.setWidth 32

/-- Write `next_free`: the upper half of the union stays. -/
def setNextFree (s : Slot) (n : BitVec 32) : Slot :=
  { s with link := (s.link.extractLsb' 32 32 ++ n : BitVec (32 + 32)) }

@[simp] theorem nextFree_setNextFree (s : Slot) (n : BitVec 32) :
    (s.setNextFree n).nextFree = n := by
  simp only [nextFree, setNextFree]
  rw [BitVec.setWidth_append]
  simp

@[simp] theorem isActive_setNextFree (s : Slot) (n : BitVec 32) :
    (s.setNextFree n).isActive = s.isActive := rfl

@[simp] theorem version_setNextFree (s : Slot) (n : BitVec 32) :
    (s.setNextFree n).version = s.version := rfl

end Slot

/-! ## The manager -/

/-- `struct session_manager`. `table` is the memory the slots lie in, the first `capacity`
of them being allocated. -/
structure SessionManager where
  index : BitVec 8
  count : BitVec 32 := 0
  capacity : BitVec 32
  table : Nat → Slot
  freeHead : BitVec 32 := 0

/-- The loop that links the slots from `lo` on below `hi`, and the end of the list behind
it. -/
def initSlots (table : Nat → Slot) (lo hi : BitVec 32) : Nat → Slot :=
  let linked := fun i =>
    if lo.toNat ≤ i ∧ i < hi.toNat then
      { (table i).setNextFree (BitVec.ofNat 32 i + 1) with version := 0, isActive := false }
    else table i
  let last := (hi - 1).toNat
  Function.update linked last ((linked last).setNextFree invalidSlotIndex)

namespace SessionManager

/-- `session_manager_create` -/
def create (index : BitVec 8) (size : BitVec 32) : SessionManager :=
  let size := if size = 0 then 1024 else size
  let size := if size > maxSlotCapacity then maxSlotCapacity else size
  { index := index, capacity := size, table := initSlots (fun _ => {}) 0 size }

/-- `_session_manager_expand` -/
def expand (m : SessionManager) (pool : Bool) : SessionManager × Int :=
  if m.capacity ≥ maxSlotCapacity then (m, -1)
  else
    let newCapacity := m.capacity * 2
    let newCapacity := if newCapacity > maxSlotCapacity then maxSlotCapacity else newCapacity
    if !pool then (m, -2)
    else
      ({ m with
          table := initSlots m.table m.capacity newCapacity
          capacity := newCapacity
          freeHead := m.capacity }, 0)

/-- `session_manager_alloc` from the choice of the slot on: the manager and the id. -/
def take (m : SessionManager) (session : BitVec 64) : SessionManager × BitVec 64 :=
  let seq := m.freeHead
  let slot := m.table seq.toNat
  ({ m with
      freeHead := slot.nextFree
      count := m.count + 1
      table := Function.update m.table seq.toNat { slot with isActive := true, link := session } },
    makeSid m.index slot.version seq)

/-- `session_manager_alloc`: the manager, and the id written to the new session if there is
one. -/
def alloc (m : SessionManager) (pool : Bool) (session : BitVec 64) :
    SessionManager × Option (BitVec 64) :=
  let r := if m.freeHead = invalidSlotIndex then m.expand pool else (m, 0)
  if r.2 ≠ 0 then (r.1, none)
  else if session = 0 then (r.1, none)
  else ((r.1.take session).1, some (r.1.take session).2)

/-- `session_manager_get`. The answer `0` is `NULL`. -/
def get (m : SessionManager) (id : BitVec 64) : BitVec 64 :=
  let seq := sidSeq id
  let ver := sidVersion id
  if seq ≥ m.capacity then 0
  else
    let slot := m.table seq.toNat
    if slot.isActive ∧ slot.version = ver ∧ slot.session ≠ 0 then slot.session else 0

/-- Give back slot `seq`. -/
def release (m : SessionManager) (seq : BitVec 32) : SessionManager :=
  let slot := m.table seq.toNat
  { m with
    table := Function.update m.table seq.toNat
      ({ slot with isActive := false, version := slot.version + 1 }.setNextFree m.freeHead)
    count := m.count - 1
    freeHead := seq }

/-- The checks of `session_manager_remove`. -/
def Owns (m : SessionManager) (session id : BitVec 64) : Prop :=
  session ≠ 0 ∧ sidSeq id < m.capacity ∧ (m.table (sidSeq id).toNat).isActive ∧
    (m.table (sidSeq id).toNat).session = session

instance (m : SessionManager) (session id : BitVec 64) : Decidable (m.Owns session id) :=
  inferInstanceAs (Decidable (_ ∧ _))

/-- `session_manager_remove`, for a session whose id is `id`. -/
def remove (m : SessionManager) (session id : BitVec 64) : SessionManager × Int :=
  if m.Owns session id then (m.release (sidSeq id), 0) else (m, -1)

/-- Slot `i` is in use. -/
def Used (m : SessionManager) (i : Nat) : Prop :=
  i < m.capacity.toNat ∧ (m.table i).isActive = true

instance (m : SessionManager) (i : Nat) : Decidable (m.Used i) :=
  inferInstanceAs (Decidable (_ ∧ _))

/-- The session is in no slot. -/
def Free (m : SessionManager) (session : BitVec 64) : Prop :=
  ∀ i < m.capacity.toNat, (m.table i).isActive = true → (m.table i).session ≠ session

instance (m : SessionManager) (session : BitVec 64) : Decidable (m.Free session) :=
  inferInstanceAs (Decidable (∀ i < _, _ → _))

end SessionManager

/-! ## Runs -/

/-- An id that `session_manager_alloc` gave to a session. -/
structure Issue where
  sid : BitVec 64
  session : BitVec 64
  /-- How often the slot had been given back. -/
  removals : Nat

/-- A manager and the ids of all sessions, those of other managers included. -/
structure Sessions where
  manager : SessionManager
  /-- `session->id` -/
  id : BitVec 64 → BitVec 64
  /-- How often each slot was given back. -/
  removals : Nat → Nat := fun _ => 0
  issued : List Issue := []

inductive ManagerInput where
  | alloc (pool : Bool) (session : BitVec 64)
  | remove (session : BitVec 64)
  /-- The id of a session that is in no slot of this manager changes. -/
  | foreign (session id : BitVec 64)
deriving Repr, DecidableEq

namespace Sessions

/-- The manager `session_manager_create` makes, among sessions with the given ids. -/
def start (index : BitVec 8) (size : BitVec 32) (id : BitVec 64 → BitVec 64) : Sessions where
  manager := .create index size
  id := id

/-- One call. -/
def step (s : Sessions) : ManagerInput → Option Sessions
  | .alloc pool session =>
    if s.manager.Free session then
      let r := s.manager.alloc pool session
      match r.2 with
      | none => some { s with manager := r.1 }
      | some sid =>
        some { s with
          manager := r.1
          id := Function.update s.id session sid
          issued := s.issued ++ [⟨sid, session, s.removals (sidSeq sid).toNat⟩] }
    else none
  | .remove session =>
    let r := s.manager.remove session (s.id session)
    if r.2 = 0 then
      let seq := (sidSeq (s.id session)).toNat
      some { s with
        manager := r.1
        id := Function.update s.id session 0
        removals := Function.update s.removals seq (s.removals seq + 1) }
    else some { s with manager := r.1 }
  | .foreign session id =>
    if s.manager.Free session then some { s with id := Function.update s.id session id } else none

end Sessions

namespace SessionManager

/-! ## The invariant -/

/-- The index a slot names as the next free one. -/
def next (m : SessionManager) (i : Nat) : Nat := (m.table i).nextFree.toNat

/-- Following `next_free` from `free_head` passes the slots of `free` and ends at
`INVALID_SLOT_INDEX`. -/
def FreeList (m : SessionManager) (free : List Nat) : Prop :=
  Chain m.next invalidSlotIndex.toNat m.freeHead.toNat free

/-- The number of used slots. -/
def active (m : SessionManager) : Nat :=
  ((Finset.range m.capacity.toNat).filter fun i => (m.table i).isActive = true).card

/-- The free list is `free`, the count is right, and the session of a used slot has the id
that leads to this slot. -/
structure Valid (m : SessionManager) (id : BitVec 64 → BitVec 64) (free : List Nat) : Prop where
  capacity : 0 < m.capacity.toNat ∧ m.capacity.toNat ≤ 2 ^ 24
  freeList : m.FreeList free
  nodup : free.Nodup
  mem_free : ∀ i, i ∈ free ↔ i < m.capacity.toNat ∧ (m.table i).isActive = false
  count : m.count.toNat = m.active
  id : ∀ i, m.Used i → id (m.table i).session =
    makeSid m.index (m.table i).version (BitVec.ofNat 32 i)
  session : ∀ i, m.Used i → (m.table i).session ≠ 0

variable {m : SessionManager} {id : BitVec 64 → BitVec 64} {free : List Nat}

/-- The slot of a used session is the one its id names. -/
theorem Valid.sidSeq_id (h : m.Valid id free) {i : Nat} (hi : m.Used i) :
    sidSeq (id (m.table i).session) = BitVec.ofNat 32 i := by
  have hlt : i < 2 ^ 24 := Nat.lt_of_lt_of_le hi.1 h.capacity.2
  rw [h.id i hi, sidSeq_makeSid]
  rw [BitVec.toNat_ofNat, Nat.mod_eq_of_lt (by omega)]
  exact hlt

/-- Slot numbers fit the 32 bits they are kept in. -/
theorem Valid.toNat_ofNat (h : m.Valid id free) {i : Nat} (hi : i < m.capacity.toNat) :
    (BitVec.ofNat 32 i).toNat = i := by
  have hcap := h.capacity.2
  rw [BitVec.toNat_ofNat, Nat.mod_eq_of_lt (by omega)]

/-- No session is in two slots. -/
theorem Valid.session_inj (h : m.Valid id free) {i j : Nat} (hi : m.Used i) (hj : m.Used j)
    (heq : (m.table i).session = (m.table j).session) : i = j := by
  rw [← h.toNat_ofNat hi.1, ← h.sidSeq_id hi, heq, h.sidSeq_id hj, h.toNat_ofNat hj.1]

/-- The first free slot. -/
theorem Valid.freeHead (h : m.Valid id free) (hne : m.freeHead ≠ invalidSlotIndex) :
    ∃ rest, free = m.freeHead.toNat :: rest ∧
      Chain m.next invalidSlotIndex.toNat (m.next m.freeHead.toNat) rest ∧
      m.freeHead.toNat < m.capacity.toNat ∧ (m.table m.freeHead.toNat).isActive = false := by
  obtain ⟨rest, rfl, hrest⟩ := h.freeList.exists_cons fun heq => hne (BitVec.eq_of_toNat_eq heq)
  exact ⟨rest, rfl, hrest, (h.mem_free _).mp List.mem_cons_self⟩

/-! ### Linking new slots -/

/-- The slots linked by `initSlots` and the ones around them. -/
theorem initSlots_spec (table : Nat → Slot) {lo hi : BitVec 32} (hlt : lo.toNat < hi.toNat) :
    (∀ i, i < lo.toNat → initSlots table lo hi i = table i) ∧
    (∀ i, lo.toNat ≤ i → i < hi.toNat → (initSlots table lo hi i).isActive = false ∧
      (initSlots table lo hi i).version = 0) ∧
    Chain (fun i => (initSlots table lo hi i).nextFree.toNat) invalidSlotIndex.toNat lo.toNat
      (List.range' lo.toNat (hi.toNat - lo.toNat)) := by
  have hlast : (hi - 1).toNat = hi.toNat - 1 := by bv_omega
  refine ⟨fun i hi' => ?_, fun i h1 h2 => ?_, ?_⟩
  · rw [initSlots, hlast, Function.update_of_ne (by omega), if_neg (by omega)]
  · rw [initSlots, hlast]
    -- the last slot is written once more, to end the list
    rcases eq_or_ne i (hi.toNat - 1) with rfl | hne
    · rw [Function.update_self, Slot.isActive_setNextFree, Slot.version_setNextFree]
      simp only
      rw [if_pos ⟨h1, h2⟩]
      exact ⟨rfl, rfl⟩
    · rw [Function.update_of_ne hne, if_pos ⟨h1, h2⟩]
      exact ⟨rfl, rfl⟩
  · refine chain_range' _ _ (by omega) (fun i h1 h2 => ?_) ?_ ?_
    · rw [initSlots, hlast, Function.update_of_ne (by omega), if_pos (by omega)]
      change ((table i).setNextFree (BitVec.ofNat 32 i + 1)).nextFree.toNat = i + 1
      rw [Slot.nextFree_setNextFree, BitVec.toNat_add, BitVec.toNat_ofNat]
      bv_omega
    · rw [initSlots, hlast, show lo.toNat + (hi.toNat - lo.toNat) - 1 = hi.toNat - 1 by omega,
        Function.update_self, Slot.nextFree_setNextFree]
    · have hbound := hi.isLt
      rw [show invalidSlotIndex.toNat = 2 ^ 32 - 1 from rfl]
      omega

/-- New slots linked behind a table that has no free one. -/
theorem link_valid (lo hi : BitVec 32) (hlt : lo.toNat < hi.toNat) (hhi : hi.toNat ≤ 2 ^ 24)
    (hactive : ∀ i < lo.toNat, (m.table i).isActive = true) (hcount : m.count.toNat = lo.toNat)
    (hid : ∀ i < lo.toNat, id (m.table i).session =
      makeSid m.index (m.table i).version (BitVec.ofNat 32 i))
    (hsession : ∀ i < lo.toNat, (m.table i).session ≠ 0) :
    Valid { m with table := initSlots m.table lo hi, capacity := hi, freeHead := lo } id
      (List.range' lo.toNat (hi.toNat - lo.toNat)) := by
  obtain ⟨hold, hnew, hchain⟩ := initSlots_spec m.table hlt
  -- a used slot is an old one, the new ones being inactive
  have hused : ∀ i, i < hi.toNat → (initSlots m.table lo hi i).isActive = true → i < lo.toNat := by
    intro i hi' hact
    by_contra hge
    rw [(hnew i (by omega) hi').1] at hact
    cases hact
  refine ⟨⟨Nat.lt_of_le_of_lt (Nat.zero_le _) hlt, hhi⟩, hchain, List.nodup_range', ?_, ?_, ?_, ?_⟩
  · intro i
    rw [List.mem_range'_1]
    constructor
    · intro hmem
      exact ⟨show i < hi.toNat by omega, (hnew i hmem.1 (by omega)).1⟩
    · intro ⟨hcap, hinactive⟩
      have hcap : i < hi.toNat := hcap
      refine ⟨?_, by omega⟩
      by_contra hlo
      have hinactive : (initSlots m.table lo hi i).isActive = false := hinactive
      rw [hold i (by omega), hactive i (by omega)] at hinactive
      cases hinactive
  · have hfilter : (Finset.range hi.toNat).filter
        (fun i => (initSlots m.table lo hi i).isActive = true) = Finset.range lo.toNat := by
      ext i
      rw [Finset.mem_filter, Finset.mem_range, Finset.mem_range]
      refine ⟨fun hi' => hused i hi'.1 hi'.2, fun hi' => ⟨by omega, ?_⟩⟩
      rw [hold i hi']
      exact hactive i hi'
    rw [hcount, active]
    simp only
    rw [hfilter, Finset.card_range]
  · intro i hi'
    have hlo := hused i hi'.1 hi'.2
    simp only [hold i hlo]
    exact hid i hlo
  · intro i hi'
    have hlo := hused i hi'.1 hi'.2
    simp only [hold i hlo]
    exact hsession i hlo

theorem create_valid (index : BitVec 8) (size : BitVec 32) (id : BitVec 64 → BitVec 64) :
    ∃ free, (create index size).Valid id free := by
  let size' := if size = 0 then 1024 else size
  let size'' := if size' > maxSlotCapacity then maxSlotCapacity else size'
  have hmax : maxSlotCapacity.toNat = 2 ^ 24 := rfl
  have hpos : 0 < size''.toNat ∧ size''.toNat ≤ 2 ^ 24 := by
    have hne : 0 < size'.toNat := by
      simp only [size']
      split
      · decide
      · bv_omega
    simp only [size'']
    split
    · rw [hmax]
      omega
    · bv_omega
  exact ⟨_, link_valid (m := { index := index, capacity := size'', table := fun _ => {} }) 0 size''
    hpos.1 hpos.2 (fun _ h => absurd h (Nat.not_lt_zero _)) rfl
    (fun _ h => absurd h (Nat.not_lt_zero _)) (fun _ h => absurd h (Nat.not_lt_zero _))⟩

/-- When no slot is free, every slot is used. -/
theorem Valid.full (h : m.Valid id []) : (∀ i < m.capacity.toNat, (m.table i).isActive = true) ∧
    m.count.toNat = m.capacity.toNat := by
  have hall : ∀ i < m.capacity.toNat, (m.table i).isActive = true := by
    intro i hi
    by_contra hinactive
    have hmem := (h.mem_free i).mpr ⟨hi, Bool.not_eq_true _ ▸ hinactive⟩
    cases hmem
  refine ⟨hall, ?_⟩
  rw [h.count, active, Finset.filter_true_of_mem fun i hi => hall i (Finset.mem_range.mp hi),
    Finset.card_range]

/-- What `_session_manager_expand` makes of a full table when it succeeds. -/
def Grows (m m' : SessionManager) : Prop :=
  m.freeHead = invalidSlotIndex ∧ ∃ new : BitVec 32, m.capacity.toNat < new.toNat ∧
    new.toNat ≤ 2 ^ 24 ∧
    m' = { m with
      table := initSlots m.table m.capacity new, capacity := new, freeHead := m.capacity }

/-- `_session_manager_expand` fails and changes nothing, or succeeds. -/
theorem Valid.expand_cases (h : m.Valid id free) (hfull : m.freeHead = invalidSlotIndex)
    (pool : Bool) : ((m.expand pool).1 = m ∧ (m.expand pool).2 ≠ 0) ∨
      (m.Grows (m.expand pool).1 ∧ (m.expand pool).2 = 0) := by
  have hcap := h.capacity
  have hmax : maxSlotCapacity.toNat = 2 ^ 24 := rfl
  unfold SessionManager.expand
  split
  · exact .inl ⟨rfl, show (-1 : Int) ≠ 0 by decide⟩
  · rename_i hsmall
    have hsmall : m.capacity.toNat < 2 ^ 24 := by
      rw [← hmax]
      bv_omega
    simp only
    split
    · exact .inl ⟨rfl, show (-2 : Int) ≠ 0 by decide⟩
    · -- the new capacity is twice the old one, or the maximum
      refine .inr ⟨⟨hfull, _, ?_, ?_, rfl⟩, rfl⟩
      · split
        · rw [hmax]
          exact hsmall
        · bv_omega
      · split
        · rw [hmax]
        · bv_omega

/-- Growing keeps every slot and links the new ones. -/
theorem Valid.grows {m' : SessionManager} (h : m.Valid id free) (hgrows : m.Grows m') :
    (∃ free', m'.Valid id free') ∧ m'.freeHead ≠ invalidSlotIndex ∧
      (∀ i, m'.Used i → m.Used i) ∧
      ∀ i < m.capacity.toNat, i < m'.capacity.toNat ∧ m'.table i = m.table i := by
  obtain ⟨hfull, new, hlt, hle, rfl⟩ := hgrows
  obtain rfl : free = [] := by
    have hchain := h.freeList
    rw [FreeList, hfull] at hchain
    exact hchain.eq_nil
  have hall := h.full
  refine ⟨⟨_, link_valid m.capacity new hlt hle hall.1 hall.2
    (fun i hi => h.id i ⟨hi, hall.1 i hi⟩) fun i hi => h.session i ⟨hi, hall.1 i hi⟩⟩,
    fun heq => ?_, fun i hi => ?_, fun i hi => ⟨hi.trans hlt, (initSlots_spec m.table hlt).1 i hi⟩⟩
  · have hcap := h.capacity.2
    rw [show m.capacity = invalidSlotIndex from heq] at hcap
    exact absurd hcap (by decide)
  · have hold : i < m.capacity.toNat := by
      by_contra hge
      have hinactive := ((initSlots_spec m.table hlt).2.1 i (by omega) hi.1).1
      have hactive : (initSlots m.table m.capacity new i).isActive = true := hi.2
      rw [hinactive] at hactive
      cases hactive
    exact ⟨hold, hall.1 i hold⟩

/-- `session_manager_alloc` with a free slot at hand. -/
theorem alloc_of_free (hfree : m.freeHead ≠ invalidSlotIndex) (pool : Bool) {session : BitVec 64}
    (hsession : session ≠ 0) :
    m.alloc pool session = ((m.take session).1, some (m.take session).2) := by
  simp only [SessionManager.alloc, if_neg hfree, if_neg hsession]
  rfl

/-- `session_manager_alloc` fails, perhaps after the table has grown, or takes a free slot,
which growing may have provided. -/
theorem Valid.alloc_cases (h : m.Valid id free) (pool : Bool) {session : BitVec 64}
    (hfree : m.Free session) : ∃ m', (m' = m ∨ m.Grows m') ∧
      (m.alloc pool session = (m', none) ∨
        m.alloc pool session = ((m'.take session).1, some (m'.take session).2) ∧
          m'.freeHead ≠ invalidSlotIndex ∧ session ≠ 0 ∧ m'.Free session) := by
  unfold SessionManager.alloc
  split
  · rename_i hfull
    rcases h.expand_cases hfull pool with ⟨hsame, hrc⟩ | ⟨hgrows, hrc⟩
    · refine ⟨m, .inl rfl, .inl ?_⟩
      simp only
      rw [if_pos hrc, hsame]
    · refine ⟨_, .inr hgrows, ?_⟩
      simp only
      rw [if_neg (not_not.mpr hrc)]
      split
      · exact .inl rfl
      · rename_i hsession
        -- a table that grew has a free slot, and the old ones as they were
        obtain ⟨-, hhead, hused, hkept⟩ := h.grows hgrows
        refine .inr ⟨rfl, hhead, hsession, fun i hi hactive => ?_⟩
        have hold := hused i ⟨hi, hactive⟩
        rw [(hkept i hold.1).2]
        exact hfree i hold.1 hold.2
  · rename_i hsome
    refine ⟨m, .inl rfl, ?_⟩
    simp only
    rw [if_neg (not_not.mpr rfl)]
    split
    · exact .inl rfl
    · rename_i hsession
      exact .inr ⟨rfl, hsome, hsession, hfree⟩

/-- Using one slot more. -/
theorem active_succ {m m' : SessionManager} {k : Nat} (hcapacity : m'.capacity = m.capacity)
    (hk : k < m.capacity.toNat) (hother : ∀ i, i ≠ k → m'.table i = m.table i)
    (hoff : (m.table k).isActive = false) (hon : (m'.table k).isActive = true) :
    m'.active = m.active + 1 := by
  have hfilter : (Finset.range m.capacity.toNat).filter (fun i => (m'.table i).isActive = true) =
      insert k ((Finset.range m.capacity.toNat).filter fun i => (m.table i).isActive = true) := by
    ext i
    rw [Finset.mem_insert, Finset.mem_filter, Finset.mem_filter, Finset.mem_range]
    rcases eq_or_ne i k with rfl | hi
    · exact iff_of_true ⟨hk, hon⟩ (.inl rfl)
    · rw [hother i hi, or_iff_right hi]
  rw [active, active, hcapacity, hfilter, Finset.card_insert_of_notMem]
  rw [Finset.mem_filter, hoff]
  exact fun hfalse => by cases hfalse.2

/-- The first free slot goes to a session that is in no slot yet. -/
theorem Valid.take (h : m.Valid id free) (hne : m.freeHead ≠ invalidSlotIndex)
    {session : BitVec 64} (hsession : session ≠ 0) (hfree : m.Free session) :
    ∃ free', (m.take session).1.Valid (Function.update id session (m.take session).2) free' := by
  obtain ⟨rest, rfl, hchain, hlt, hinactive⟩ := h.freeHead hne
  have hnodup := List.nodup_cons.mp h.nodup
  have hcap := h.capacity
  have hcount := h.count
  set seq := m.freeHead.toNat with hseq
  -- the other slots stay as they are
  have hother : ∀ i, i ≠ seq → (m.take session).1.table i = m.table i :=
    fun i hi => Function.update_of_ne hi ..
  have hself : (m.take session).1.table seq =
      { m.table seq with isActive := true, link := session } := Function.update_self ..
  refine ⟨rest, hcap, ?_, hnodup.2, ?_, ?_, ?_, ?_⟩
  · refine Chain.congr hchain fun i hi => ?_
    have hne : i ≠ seq := fun heq => hnodup.1 (heq ▸ hi)
    rw [next, next, hother i hne]
  · intro i
    rcases eq_or_ne i seq with rfl | hi
    · rw [hself]
      exact iff_of_false hnodup.1 fun hfalse => by cases hfalse.2
    · have hmem := h.mem_free i
      rw [List.mem_cons, or_iff_right hi] at hmem
      rw [hother i hi]
      exact hmem
  · -- one slot more is used
    have hle : m.active ≤ m.capacity.toNat := by
      rw [active]
      exact (Finset.card_filter_le _ _).trans_eq (Finset.card_range _)
    have hactive : (m.take session).1.active = m.active + 1 :=
      active_succ rfl hlt hother hinactive (congrArg Slot.isActive hself)
    rw [hactive]
    change (m.count + 1).toNat = _
    bv_omega
  · intro i hi
    rcases eq_or_ne i seq with rfl | hne
    · rw [hself]
      simp only
      rw [show Slot.session _ = session from rfl, Function.update_self]
      simp only [SessionManager.take, hseq, BitVec.ofNat_toNat, BitVec.setWidth_eq]
    · have hused : m.Used i := ⟨hi.1, by rw [← hother i hne]; exact hi.2⟩
      rw [hother i hne, Function.update_of_ne (hfree i hused.1 hused.2), h.id i hused]
      rfl
  · intro i hi
    rcases eq_or_ne i seq with rfl | hne
    · rw [hself]
      exact hsession
    · have hused : m.Used i := ⟨hi.1, by rw [← hother i hne]; exact hi.2⟩
      rw [hother i hne]
      exact h.session i hused

/-- Giving back the slot of a session. -/
theorem Valid.release (h : m.Valid id free) {session : BitVec 64}
    (howns : m.Owns session (id session)) :
    ∃ free', (m.release (sidSeq (id session))).Valid (Function.update id session 0) free' := by
  obtain ⟨-, hlt, hactive, hsession⟩ := howns
  have hcap := h.capacity
  have hcount := h.count
  set k := (sidSeq (id session)).toNat with hk
  have hlt : k < m.capacity.toNat := by bv_omega
  have hused : m.Used k := ⟨hlt, hactive⟩
  have hnotfree : k ∉ free := fun hmem => by
    rw [((h.mem_free k).mp hmem).2] at hactive
    cases hactive
  -- the other slots stay as they are
  have hother : ∀ i, i ≠ k → (m.release (sidSeq (id session))).table i = m.table i :=
    fun i hi => Function.update_of_ne hi ..
  have hself : (m.release (sidSeq (id session))).table k =
      { m.table k with isActive := false, version := (m.table k).version + 1 }.setNextFree
        m.freeHead := Function.update_self ..
  have hinactive : ((m.release (sidSeq (id session))).table k).isActive = false := by
    rw [hself]
    rfl
  have husedOther : ∀ i, (m.release (sidSeq (id session))).Used i → i ≠ k ∧ m.Used i := by
    intro i hi
    have hne : i ≠ k := by
      rintro rfl
      rw [hi.2] at hinactive
      cases hinactive
    exact ⟨hne, hi.1, by rw [← hother i hne]; exact hi.2⟩
  refine ⟨k :: free, hcap, ?_, List.nodup_cons.mpr ⟨hnotfree, h.nodup⟩, ?_, ?_, ?_, ?_⟩
  · change Chain _ _ k (k :: free)
    refine Chain.push h.freeList ?_ hnotfree ?_ fun i hi => ?_
    · rw [show invalidSlotIndex.toNat = 2 ^ 32 - 1 from rfl]
      omega
    · rw [next, hself, Slot.nextFree_setNextFree]
    · rw [next, next, hother i hi]
  · intro i
    rw [List.mem_cons]
    rcases eq_or_ne i k with rfl | hi
    · exact iff_of_true (.inl rfl) ⟨hlt, hinactive⟩
    · rw [or_iff_right hi, h.mem_free, hother i hi]
      rfl
  · -- one slot less is used
    have hsucc : m.active = (m.release (sidSeq (id session))).active + 1 :=
      active_succ rfl hlt (fun i hi => (hother i hi).symm) hinactive hactive
    change (m.count - 1).toNat = _
    bv_omega
  · intro i hi
    obtain ⟨hne, hused'⟩ := husedOther i hi
    rw [hother i hne, Function.update_of_ne, h.id i hused']
    · rfl
    · rintro heq
      exact hne (h.session_inj hused' hused (heq.trans hsession.symm))
  · intro i hi
    obtain ⟨hne, hused'⟩ := husedOther i hi
    rw [hother i hne]
    exact h.session i hused'

/-- The ids of sessions in no slot do not matter. -/
theorem Valid.foreign (h : m.Valid id free) {session : BitVec 64} (hfree : m.Free session)
    (sid : BitVec 64) : m.Valid (Function.update id session sid) free := by
  refine { h with id := fun i hi => ?_ }
  rw [Function.update_of_ne (hfree i hi.1 hi.2)]
  exact h.id i hi

/-- Whatever is bound into its reserved bits, the id of a used slot's session leads to it. -/
theorem Valid.get_bind (h : m.Valid id free) {i : Nat} (hi : m.Used i) (res : BitVec 16) :
    m.get (bindLogicRes (id (m.table i).session) res) = (m.table i).session := by
  have hslot := h.toNat_ofNat hi.1
  have hcap := h.capacity.2
  have hseq : sidSeq (bindLogicRes (id (m.table i).session) res) = BitVec.ofNat 32 i := by
    rw [h.id i hi]
    exact sidSeq_bind res (by rw [hslot]; exact Nat.lt_of_lt_of_le hi.1 hcap)
  have hver : sidVersion (bindLogicRes (id (m.table i).session) res) = (m.table i).version := by
    rw [h.id i hi]
    exact sidVersion_bind res
  have hlt : ¬ BitVec.ofNat 32 i ≥ m.capacity := by
    have hbound := hi.1
    bv_omega
  rw [get, hseq, hver]
  simp only
  rw [if_neg hlt, hslot, if_pos ⟨hi.2, rfl, h.session i hi⟩]

/-! ## Every run -/

/-- Allocating a session, or failing to. -/
theorem Valid.alloc (h : m.Valid id free) (pool : Bool) {session : BitVec 64}
    (hfree : m.Free session) :
    ∃ free', (m.alloc pool session).1.Valid
      (match (m.alloc pool session).2 with
        | none => id
        | some sid => Function.update id session sid) free' := by
  obtain ⟨m', hm', halloc⟩ := h.alloc_cases pool hfree
  obtain ⟨free', hvalid⟩ : ∃ free', m'.Valid id free' := by
    rcases hm' with rfl | hgrows
    · exact ⟨free, h⟩
    · exact (h.grows hgrows).1
  rcases halloc with halloc | ⟨halloc, hhead, hsession, hfree'⟩
  · rw [halloc]
    exact ⟨free', hvalid⟩
  · rw [halloc]
    exact hvalid.take hhead hsession hfree'

/-- Removing a session, one that is not there included. -/
theorem Valid.remove (h : m.Valid id free) (session : BitVec 64) :
    ∃ free', (m.remove session (id session)).1.Valid
      (if (m.remove session (id session)).2 = 0 then Function.update id session 0 else id)
      free' := by
  unfold SessionManager.remove
  split
  · rename_i howns
    exact h.release howns
  · exact ⟨free, h⟩

theorem alloc_index (pool : Bool) (session : BitVec 64) :
    (m.alloc pool session).1.index = m.index := by
  have hexpand : (m.expand pool).1.index = m.index := by
    unfold SessionManager.expand
    split
    · rfl
    · simp only
      split <;> rfl
  unfold SessionManager.alloc
  simp only
  split
  · split
    · exact hexpand
    · split
      · exact hexpand
      · exact hexpand
  · split
    · rfl
    · split <;> rfl

theorem remove_index (session sid : BitVec 64) : (m.remove session sid).1.index = m.index := by
  unfold SessionManager.remove
  split <;> rfl

end SessionManager

namespace Sessions

theorem step_index {s s' : Sessions} {input : ManagerInput} (hstep : s.step input = some s') :
    s'.manager.index = s.manager.index := by
  cases input with
  | alloc pool session =>
    simp only [step] at hstep
    split at hstep
    · split at hstep
      · cases hstep
        exact SessionManager.alloc_index pool session
      · cases hstep
        exact SessionManager.alloc_index pool session
    · cases hstep
  | remove session =>
    simp only [step] at hstep
    split at hstep
    · cases hstep
      exact SessionManager.remove_index session _
    · cases hstep
      exact SessionManager.remove_index session _
  | foreign session id =>
    simp only [step] at hstep
    split at hstep
    · cases hstep
      rfl
    · cases hstep

theorem step_valid {s s' : Sessions} {input : ManagerInput} {free : List Nat}
    (h : s.manager.Valid s.id free) (hstep : s.step input = some s') :
    ∃ free', s'.manager.Valid s'.id free' := by
  cases input with
  | alloc pool session =>
    simp only [step] at hstep
    split at hstep
    · rename_i hfree
      obtain ⟨free', hvalid⟩ := h.alloc pool hfree
      split at hstep
      · rename_i hnone
        cases hstep
        rw [hnone] at hvalid
        exact ⟨free', hvalid⟩
      · rename_i sid hsome
        cases hstep
        rw [hsome] at hvalid
        exact ⟨free', hvalid⟩
    · cases hstep
  | remove session =>
    simp only [step] at hstep
    -- a removal that fails leaves the session its id
    obtain ⟨free', hvalid⟩ := h.remove session
    split at hstep
    · rename_i hrc
      cases hstep
      rw [if_pos hrc] at hvalid
      exact ⟨free', hvalid⟩
    · rename_i hrc
      cases hstep
      rw [if_neg hrc] at hvalid
      exact ⟨free', hvalid⟩
  | foreign session id =>
    simp only [step] at hstep
    split at hstep
    · rename_i hfree
      cases hstep
      exact ⟨free, h.foreign hfree id⟩
    · cases hstep

variable {index : BitVec 8} {size : BitVec 32} {id : BitVec 64 → BitVec 64}
  {inputs : List ManagerInput} {s : Sessions}

theorem valid_of_run (hrun : Run step (start index size id) inputs s) :
    ∃ free, s.manager.Valid s.id free :=
  hrun.invariant (I := fun s => ∃ free, s.manager.Valid s.id free)
    (SessionManager.create_valid index size id) fun _ _ _ ⟨_, hvalid⟩ _ hstep =>
      step_valid hvalid hstep

theorem index_of_run (hrun : Run step (start index size id) inputs s) :
    s.manager.index = index :=
  hrun.invariant (I := fun s => s.manager.index = index) rfl
    fun _ _ _ hindex _ hstep => (step_index hstep).trans hindex

/-- After every run, repeated and foreign removals included: the free list passes exactly the
slots that are not in use, each once; the count is the number of used slots; the sessions in
use have distinct ids; and the id of each leads back to it and to the manager, whatever the
logic layer has bound into it. -/
theorem manager_invariants (hindex : index.toNat ≤ 254)
    (hrun : Run step (start index size id) inputs s) :
    (∃ free, s.manager.FreeList free ∧ free.Nodup ∧
      ∀ i, i ∈ free ↔ i < s.manager.capacity.toNat ∧ (s.manager.table i).isActive = false) ∧
    s.manager.count.toNat = s.manager.active ∧
    (∀ i j, s.manager.Used i → s.manager.Used j → i ≠ j →
      (s.manager.table i).session ≠ (s.manager.table j).session ∧
      s.id (s.manager.table i).session ≠ s.id (s.manager.table j).session) ∧
    ∀ i, s.manager.Used i → ∀ res,
      s.manager.get (bindLogicRes (s.id (s.manager.table i).session) res) =
        (s.manager.table i).session ∧
      sidIndex (bindLogicRes (s.id (s.manager.table i).session) res) = index.toNat := by
  obtain ⟨free, h⟩ := valid_of_run hrun
  refine ⟨⟨free, h.freeList, h.nodup, h.mem_free⟩, h.count, fun i j hi hj hne => ⟨?_, ?_⟩,
    fun i hi res => ⟨h.get_bind hi res, ?_⟩⟩
  · exact fun heq => hne (h.session_inj hi hj heq)
  · intro heq
    apply hne
    rw [← h.toNat_ofNat hi.1, ← h.sidSeq_id hi, heq, h.sidSeq_id hj, h.toNat_ofNat hj.1]
  · rw [h.id i hi, index_of_run hrun]
    exact sidIndex_bind res hindex

/-- A table of one slot that grows to two, a session removed twice, and one of another
manager whose id names a slot in use. -/
def growAndRemove : List ManagerInput :=
  [.alloc true 0x10, .alloc true 0x20, .remove 0x10, .remove 0x10, .foreign 0x30 0x010000000001,
    .remove 0x30]

theorem manager_invariants_growAndRemove :
    ∃ s, Run step (start 0 1 fun _ => 0) growAndRemove s ∧ s.manager.Used 1 ∧
      ¬ s.manager.Used 0 ∧ s.manager.active = 1 ∧
      s.manager.get (bindLogicRes (s.id 0x20) 7) = 0x20 := by
  have hrun : exec step (start 0 1 fun _ => 0) growAndRemove = some _ := rfl
  have hinv := manager_invariants (by decide) (run_iff_exec.mpr hrun)
  exact ⟨_, run_iff_exec.mpr hrun, by decide, by decide, hinv.2.1.symm.trans (by decide),
    (hinv.2.2.2 1 (by decide) 7).1⟩

end Sessions

end Evlite
