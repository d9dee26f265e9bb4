import Evlite.Lib.Chain
import Evlite.Lib.TransitionSystem
import Evlite.Network.EpHashTable
import Mathlib.Algebra.Order.BigOperators.Group.Finset

/-!
# The Endpoint Table in Memory

The endpoint table (`ephashtable.c`) as it is in memory: entries at addresses that name the next
entry of their chain, and loops that follow these links. A run calls `ephashtable_append` and
`ephashtable_remove` in any order, with any endpoints; the allocator gives an entry any address
that is not in use.

There are two layers above. `EpHashTable` has the chains as lists; `Represents` is the relation
to it. Above it, the table is a list of the entries that were appended and not removed, the
newest one first, without any hash; `Tracks` is the relation to that one.

## Main results

- `Represents.append`, `Represents.remove`: the loops do what the lists say.
- `Tracks.step`: one call keeps the table and the list of live entries together.
- `ephashtable_newest`: in any run the table answers like the list of live entries.
-/

namespace Evlite

open Lib

/-- The key of an entry: a host that fits into `endpoint::host`, and a port. -/
structure EndpointKey where
  host : CString
  port : BitVec 16
  fits : host.length < 64
deriving DecidableEq

/-- An entry has the key. -/
def EndpointKey.Of (key : EndpointKey) (e : Endpoint) : Bool :=
  e.Matches key.host key.port

theorem EndpointKey.of_iff {key : EndpointKey} {e : Endpoint} :
    key.Of e = true ↔ (e.host, e.port) = (key.host, key.port) := by
  rw [EndpointKey.Of, EpHashTable.matches_iff, Prod.mk.injEq]

/-- An entry has one key. -/
theorem EndpointKey.not_of {key key' : EndpointKey} (hne : key' ≠ key) {e : Endpoint}
    (he : key.Of e) : ¬ key'.Of e := by
  intro he'
  have heq := (of_iff.mp he').symm.trans (of_iff.mp he)
  obtain ⟨hhost, hport⟩ := Prod.mk.inj heq
  cases key
  cases key'
  subst hhost hport
  exact hne rfl

/-! ## The functions -/

/-- `struct ephashtable`, with the entries and their `next` by address. The address 0 is `NULL`.
`allocated` are the addresses in use. -/
structure EpMemory where
  entry : Nat → Endpoint
  next : Nat → Nat
  table : Nat → Nat
  size : Nat
  sizemask : Nat
  count : Nat
  allocated : List Nat

namespace EpMemory

/-- `ephashtable_create` -/
def create (count : BitVec 32) : EpMemory where
  entry _ := ⟨0, [], 0⟩
  next _ := 0
  table _ := 0
  size := (nextpow2 count).toNat
  sizemask := (nextpow2 count).toNat - 1
  count := 0
  allocated := []

/-- The loop of `ephashtable_find` -/
def findLoop (m : EpMemory) (key : EndpointKey) : Nat → Nat → Option Nat
  | 0, _ => none
  | fuel + 1, head =>
    if head = 0 then none
    else if key.Of (m.entry head) then some (m.entry head).value
    else findLoop m key fuel (m.next head)

/-- What `ephashtable_remove` does when the entry at `head` has the key. -/
def unlink (m : EpMemory) (index prev head : Nat) : EpMemory :=
  if prev ≠ 0 then
    { m with
      next := Function.update m.next prev (m.next head)
      count := m.count - 1
      allocated := m.allocated.erase head }
  else
    { m with
      table := Function.update m.table index (m.next head)
      count := m.count - 1
      allocated := m.allocated.erase head }

/-- The loop of `ephashtable_remove` -/
def removeLoop (m : EpMemory) (key : EndpointKey) (index : Nat) : Nat → Nat → Nat → EpMemory
  | 0, _, _ => m
  | fuel + 1, prev, head =>
    if head = 0 then m
    else if key.Of (m.entry head) then m.unlink index prev head
    else removeLoop m key index fuel head (m.next head)

variable (hash : CString → BitVec 16 → BitVec 32)

/-- `_get_hashkey( host, port ) & self->sizemask` -/
def index (m : EpMemory) (key : EndpointKey) : Nat :=
  (hash key.host key.port).toNat &&& m.sizemask

/-- `ephashtable_find`. No chain has more than `count` entries (`Represents.length_le`), so that
the loop ends at an entry or at `NULL`. -/
def find (m : EpMemory) (key : EndpointKey) : Option Nat :=
  if m.count = 0 then none
  else findLoop m key m.count (m.table (m.index hash key))

/-- `ephashtable_remove` -/
def remove (m : EpMemory) (key : EndpointKey) : EpMemory :=
  if m.count = 0 then m
  else
    let index := m.index hash key
    removeLoop m key index m.count 0 (m.table index)

/-- `ephashtable_append`, whose allocation yields the address `entry`. -/
def append (m : EpMemory) (key : EndpointKey) (entry value : Nat) : EpMemory :=
  let index := m.index hash key
  { m with
    entry := Function.update m.entry entry ⟨key.port, key.host, value⟩
    next := Function.update m.next entry (m.table index)
    table := Function.update m.table index entry
    count := m.count + 1
    allocated := entry :: m.allocated }

/-- The addresses of a chain, found by following the links. -/
def chain (m : EpMemory) (b : Nat) : List Nat :=
  follow m.next 0 m.count (m.table b)

/-- The entries `ephashtable_destroy` calls `helper` for, in this order. -/
def entries (m : EpMemory) : List Endpoint :=
  (List.range m.size).flatMap fun b => (m.chain b).map m.entry

/-! ## Runs -/

/-- A call of the table. -/
inductive TableInput where
  | append (key : EndpointKey) (entry value : Nat)
  | remove (key : EndpointKey)

/-- One call. The allocator does not give out an address that is in use. -/
def step (m : EpMemory) : TableInput → Option EpMemory
  | .append key entry value =>
    if entry = 0 ∨ entry ∈ m.allocated then none else some (m.append hash key entry value)
  | .remove key => some (m.remove hash key)

/-- The entries that were appended and not removed, the newest one first. -/
def liveStep (live : List Endpoint) : TableInput → List Endpoint
  | .append key _ value => ⟨key.port, key.host, value⟩ :: live
  | .remove key => live.eraseP key.Of

/-- The entries that are live after a list of calls. -/
def live (is : List TableInput) : List Endpoint :=
  is.foldl liveStep []

/-! ## Chains as lists -/

/-- The memory has the chains of a table: at the addresses `addrs b` are the entries of the
chain `b`. -/
structure Represents (m : EpMemory) (addrs : Nat → List Nat) (t : EpHashTable) : Prop where
  links : ∀ b, Chain m.next 0 (m.table b) (addrs b)
  table : ∀ b, t.table b = (addrs b).map m.entry
  nodup : ∀ b, (addrs b).Nodup
  disjoint : ∀ b c, b ≠ c → (addrs b).Disjoint (addrs c)
  allocated : ∀ b, ∀ a ∈ addrs b, a ∈ m.allocated
  size : m.size = t.size
  sizemask : m.sizemask = t.sizemask
  count : m.count = t.count

variable {hash} {m : EpMemory} {addrs : Nat → List Nat} {t : EpHashTable} {key : EndpointKey}

theorem Represents.index_eq (h : Represents m addrs t) (key : EndpointKey) :
    m.index hash key = t.index hash key.host key.port := by
  rw [index, EpHashTable.index, h.sizemask]

/-- No chain is longer than the count. -/
theorem Represents.length_le (h : Represents m addrs t) (hwf : t.WellFormed hash) {b : Nat}
    (hb : b < t.size) : (addrs b).length ≤ m.count := by
  have hlength : (addrs b).length = (t.table b).length := by rw [h.table b, List.length_map]
  rw [hlength, h.count, hwf.count]
  exact Finset.single_le_sum (f := fun b => (t.table b).length) (fun _ _ => Nat.zero_le _)
    (Finset.mem_range.mpr hb)

/-- The loop of `ephashtable_find` is a search of the chain. -/
theorem findLoop_eq {head fuel : Nat} {l : List Nat} (hchain : Chain m.next 0 head l)
    (hfuel : l.length ≤ fuel) :
    findLoop m key fuel head = ((l.map m.entry).find? key.Of).map Endpoint.value := by
  induction hchain generalizing fuel with
  | nil =>
    cases fuel with
    | zero => rfl
    | succ fuel => exact if_pos rfl
  | @cons a l hne _ ih =>
    cases fuel with
    | zero => cases hfuel
    | succ fuel =>
      rw [findLoop, if_neg hne, List.map_cons]
      split
      · rename_i hof
        rw [List.find?_cons_of_pos hof]
        rfl
      · rename_i hof
        rw [List.find?_cons_of_neg hof, ih (Nat.le_of_succ_le_succ hfuel)]

/-- `ephashtable_find` is the one of the lists. -/
theorem Represents.find_eq (h : Represents m addrs t) (hwf : t.WellFormed hash)
    (key : EndpointKey) : m.find hash key = t.find hash key.host key.port := by
  rw [find, EpHashTable.find, h.count, h.index_eq]
  split
  · rfl
  · have hlength := h.length_le hwf (hwf.index_lt key.host key.port)
    rw [h.count] at hlength
    rw [findLoop_eq (h.links _) hlength, h.table]
    rfl

/-! ### The update of one chain -/

/-- One chain has changed, to one whose addresses are in no other chain. -/
theorem Represents.update (h : Represents m addrs t) {m' : EpMemory} {i n : Nat} {l : List Nat}
    {es : List Endpoint} (htable : ∀ b, b ≠ i → m'.table b = m.table b)
    (hother : ∀ b, b ≠ i → ∀ a ∈ addrs b,
      m'.next a = m.next a ∧ m'.entry a = m.entry a ∧ a ∈ m'.allocated ∧ a ∉ l)
    (hlinks : Chain m'.next 0 (m'.table i) l) (hes : es = l.map m'.entry) (hnodup : l.Nodup)
    (hallocated : ∀ a ∈ l, a ∈ m'.allocated) (hsize : m'.size = m.size)
    (hsizemask : m'.sizemask = m.sizemask) (hcount : m'.count = n) :
    Represents m' (Function.update addrs i l)
      { t with table := Function.update t.table i es
               count := n } where
  links b := by
    by_cases hb : b = i
    · subst hb
      rw [Function.update_self]
      exact hlinks
    · rw [Function.update_of_ne hb, htable b hb]
      exact (h.links b).congr fun a ha => (hother b hb a ha).1
  table b := by
    by_cases hb : b = i
    · subst hb
      simp only [Function.update_self]
      exact hes
    · simp only [Function.update_of_ne hb, h.table b]
      exact List.map_congr_left fun a ha => (hother b hb a ha).2.1.symm
  nodup b := by
    by_cases hb : b = i
    · subst hb
      rw [Function.update_self]
      exact hnodup
    · rw [Function.update_of_ne hb]
      exact h.nodup b
  disjoint b c hbc := by
    by_cases hb : b = i
    · subst hb
      rw [Function.update_self, Function.update_of_ne (Ne.symm hbc)]
      exact fun a ha hac => (hother c (Ne.symm hbc) a hac).2.2.2 ha
    rw [Function.update_of_ne hb]
    by_cases hc : c = i
    · subst hc
      rw [Function.update_self]
      exact fun a hab ha => (hother b hb a hab).2.2.2 ha
    · rw [Function.update_of_ne hc]
      exact h.disjoint b c hbc
  allocated b a ha := by
    by_cases hb : b = i
    · subst hb
      rw [Function.update_self] at ha
      exact hallocated a ha
    · rw [Function.update_of_ne hb] at ha
      exact (hother b hb a ha).2.2.1
  size := hsize.trans h.size
  sizemask := hsizemask.trans h.sizemask
  count := hcount

/-- `ephashtable_append` is the one of the lists. -/
theorem Represents.append (h : Represents m addrs t) (hash : CString → BitVec 16 → BitVec 32)
    (key : EndpointKey) {a : Nat} (v : Nat)
    (hne : a ≠ 0) (hnew : a ∉ m.allocated) :
    ∃ addrs', Represents (m.append hash key a v) addrs' (t.append hash key.host key.port v) := by
  -- the new address is in no chain
  have hfresh : ∀ b, ∀ c ∈ addrs b, c ≠ a := by
    rintro b c hc rfl
    exact hnew (h.allocated b c hc)
  have hself : m.index hash key = t.index hash key.host key.port := h.index_eq key
  refine ⟨_, h.update (i := t.index hash key.host key.port) (l := a :: addrs (t.index hash key.host key.port))
    (fun b hb => ?_)
    (fun b hb c hc => ⟨?_, ?_, ?_, ?_⟩) ?_ ?_ ?_ (fun c hc => ?_) rfl rfl
    (congrArg (· + 1) h.count)⟩
  · exact Function.update_of_ne (by rwa [hself]) _ _
  · exact Function.update_of_ne (hfresh b c hc) _ _
  · exact Function.update_of_ne (hfresh b c hc) _ _
  · exact List.mem_cons_of_mem _ (h.allocated b c hc)
  · intro hmem
    rcases List.mem_cons.mp hmem with rfl | hmem
    · exact hfresh b c hc rfl
    · exact h.disjoint b _ hb hc hmem
  · simp only [EpMemory.append, hself, Function.update_self]
    exact (h.links _).push hne (fun hc => hfresh _ a hc rfl) (Function.update_self ..)
      fun c hc => Function.update_of_ne hc _ _
  · simp only [EpMemory.append, List.map_cons, Function.update_self, h.table]
    congr 1
    exact List.map_congr_left fun c hc => (Function.update_of_ne (hfresh _ c hc) _ _).symm
  · exact List.nodup_cons.mpr ⟨fun hc => hfresh _ a hc rfl, h.nodup _⟩
  · rcases List.mem_cons.mp hc with rfl | hc
    · exact List.mem_cons_self
    · exact List.mem_cons_of_mem _ (h.allocated _ c hc)

/-! ### The entry that goes -/

/-- An entry in the middle or at the end of a chain is linked around, one at the front leaves
the chain to the next one. -/
theorem Represents.unlink (h : Represents m addrs t) {i prev a : Nat} {done rest : List Nat}
    (haddrs : addrs i = done ++ a :: rest) (hprev : prev = done.getLast?.getD 0) :
    ∃ addrs', Represents (m.unlink i prev a) addrs'
      { t with table := Function.update t.table i ((done ++ rest).map m.entry)
               count := t.count - 1 } := by
  have hlinks : Chain m.next 0 (m.table i) (done ++ a :: rest) := haddrs ▸ h.links i
  have hnodup : (done ++ a :: rest).Nodup := haddrs ▸ h.nodup i
  obtain ⟨ha, hnodup'⟩ := List.nodup_cons.mp (List.nodup_middle.mp hnodup)
  have hsubset : ∀ c ∈ done ++ rest, c ∈ addrs i := fun c hc => by
    rw [haddrs]
    exact (List.perm_middle.mem_iff).mpr (List.mem_cons_of_mem a hc)
  -- an address of the chain is in no other one
  have hapart : ∀ b, b ≠ i → ∀ c ∈ addrs b, c ≠ a ∧ c ∉ done ++ rest := fun b hb c hc =>
    ⟨by
      rintro rfl
      exact h.disjoint b i hb hc (by simp [haddrs]),
    fun hmem => h.disjoint b i hb hc (hsubset c hmem)⟩
  have hallocated : ∀ c ∈ done ++ rest, c ∈ m.allocated.erase a := fun c hc => by
    refine (List.mem_erase_of_ne ?_).mpr (h.allocated i c (hsubset c hc))
    rintro rfl
    exact ha hc
  have hkeep : ∀ b, b ≠ i → ∀ c ∈ addrs b, c ∈ m.allocated.erase a := fun b hb c hc =>
    (List.mem_erase_of_ne (hapart b hb c hc).1).mpr (h.allocated b c hc)
  rcases List.eq_nil_or_concat done with rfl | ⟨d, c, rfl⟩
  · subst hprev
    refine ⟨_, h.update (i := i) (l := [] ++ rest) (fun b hb => ?_) (fun b hb c hc => ?_) ?_ rfl
      hnodup' hallocated rfl rfl (congrArg (· - 1) h.count)⟩
    · exact Function.update_of_ne hb _ _
    · exact ⟨rfl, rfl, hkeep b hb c hc, (hapart b hb c hc).2⟩
    · change Chain m.next 0 (Function.update m.table i (m.next a) i) rest
      rw [Function.update_self]
      exact Chain.drop (show Chain m.next 0 (m.table i) ([] ++ a :: rest) from hlinks)
  · rw [List.concat_eq_append] at *
    have hc : prev = c := by simpa using hprev
    have hne : c ≠ 0 := hlinks.ne_stop c (by simp)
    rw [EpMemory.unlink, if_pos (by rwa [hc]), hc]
    refine ⟨_, h.update (i := i) (l := d ++ [c] ++ rest) (fun b hb => rfl) (fun b hb e he => ?_) ?_
      rfl hnodup' hallocated rfl rfl (congrArg (· - 1) h.count)⟩
    · refine ⟨Function.update_of_ne ?_ _ _, rfl, hkeep b hb e he, (hapart b hb e he).2⟩
      rintro rfl
      exact (hapart b hb e he).2 (by simp)
    · rw [List.append_assoc] at hlinks hnodup ⊢
      exact hlinks.unlink hnodup

/-- The loop of `ephashtable_remove` removes the first entry of the key from its chain. -/
theorem Represents.removeLoop (h : Represents m addrs t) (key : EndpointKey) (done : List Nat)
    {i fuel prev head : Nat} {rest : List Nat} (haddrs : addrs i = done ++ rest) (hrest : Chain m.next 0 head rest)
    (hprev : prev = done.getLast?.getD 0) (hfuel : rest.length ≤ fuel)
    (hdone : ∀ a ∈ done, ¬ key.Of (m.entry a)) :
    ∃ addrs', Represents (m.removeLoop key i fuel prev head) addrs'
      (if (t.table i).find? key.Of = none then t
       else { t with table := Function.update t.table i ((t.table i).eraseP key.Of)
                     count := t.count - 1 }) := by
  -- what the loop has come by does not have the key
  have hpassed : ∀ e ∈ done.map m.entry, ¬ key.Of e := by
    intro e he
    obtain ⟨a, ha, rfl⟩ := List.mem_map.mp he
    exact hdone a ha
  have hend : rest = [] → (t.table i).find? key.Of = none := by
    rintro rfl
    rw [h.table, haddrs, List.append_nil]
    exact List.find?_eq_none.mpr hpassed
  induction fuel generalizing prev head done rest with
  | zero =>
    rw [if_pos (hend (List.eq_nil_of_length_eq_zero (Nat.le_zero.mp hfuel)))]
    exact ⟨addrs, h⟩
  | succ fuel ih =>
    rw [EpMemory.removeLoop]
    by_cases hhead : head = 0
    · subst hhead
      rw [if_pos (hend hrest.eq_nil)]
      exact ⟨addrs, h⟩
    obtain ⟨rest', rfl, hrest'⟩ := hrest.exists_cons hhead
    rw [if_neg hhead]
    split
    · rename_i hof
      have herase : (t.table i).eraseP key.Of = (done ++ rest').map m.entry := by
        rw [h.table, haddrs, List.map_append, List.eraseP_append_right _ hpassed, List.map_cons,
          List.eraseP_cons_of_pos hof, List.map_append]
      have hfound : ¬ (t.table i).find? key.Of = none := by
        rw [List.find?_eq_none, h.table, haddrs]
        exact fun hnone => hnone (m.entry head) (by simp) hof
      rw [if_neg hfound, herase]
      exact h.unlink haddrs hprev
    · rename_i hof
      have hdone' : ∀ a ∈ done ++ [head], ¬ key.Of (m.entry a) := fun a ha => by
        rcases List.mem_append.mp ha with ha | ha
        · exact hdone a ha
        · rwa [List.mem_singleton.mp ha]
      refine ih (done ++ [head]) (by rw [haddrs, List.append_assoc, List.singleton_append]) hrest' (by simp)
        (Nat.le_of_succ_le_succ hfuel) hdone' (fun e he => ?_) fun hnil => ?_
      · obtain ⟨a, ha, rfl⟩ := List.mem_map.mp he
        exact hdone' a ha
      · rw [h.table, haddrs, hnil]
        refine List.find?_eq_none.mpr fun e he => ?_
        obtain ⟨a, ha, rfl⟩ := List.mem_map.mp he
        exact hdone' a ha

/-- `ephashtable_remove` is the one of the lists. -/
theorem Represents.remove (h : Represents m addrs t) (hwf : t.WellFormed hash)
    (key : EndpointKey) :
    ∃ addrs', Represents (m.remove hash key) addrs' (t.remove hash key.host key.port).1 := by
  have hlength := h.length_le hwf (hwf.index_lt key.host key.port)
  rw [EpMemory.remove, EpHashTable.remove, h.count, h.index_eq]
  split
  · exact ⟨_, h⟩
  obtain ⟨addrs', h'⟩ := h.removeLoop key [] rfl (h.links _) rfl hlength
    (fun a ha => absurd ha List.not_mem_nil)
  have hof : key.Of = fun e => e.Matches key.host key.port := rfl
  rw [h.count, hof] at h'
  refine ⟨addrs', ?_⟩
  simp only
  split
  · rename_i hfind
    rwa [if_pos hfind] at h'
  · rename_i e hfind
    rwa [if_neg fun hnone => Option.some_ne_none e (hfind.symm.trans hnone)] at h'

/-! ## The live entries -/

/-- The table has chains, they are those of a hash table, and this one has the live entries in
the chains of their keys. -/
def Tracks (hash : CString → BitVec 16 → BitVec 32) (m : EpMemory) (live : List Endpoint) : Prop :=
  ∃ addrs t, Represents m addrs t ∧ t.WellFormed hash ∧
    Chained (fun e => (e.host, e.port)) (fun k => t.index hash k.1 k.2) t.table live

variable {live : List Endpoint}

theorem Tracks.create {count : BitVec 32} (hsize : 0 < (nextpow2 count).toNat) :
    Tracks hash (create count) [] := by
  refine ⟨fun _ => [], EpHashTable.create count, ⟨fun _ => .nil, fun _ => rfl,
    fun _ => List.nodup_nil, fun _ _ _ => List.disjoint_nil_left _,
    fun _ _ ha => absurd ha List.not_mem_nil, rfl, rfl, rfl⟩,
    EpHashTable.create_wellFormed hsize, Chained.nil _ _⟩

/-- `ephashtable_append` makes an entry the newest one. -/
theorem Tracks.append (h : Tracks hash m live) (key : EndpointKey) {a : Nat} (v : Nat)
    (hne : a ≠ 0) (hnew : a ∉ m.allocated) :
    Tracks hash (m.append hash key a v) (⟨key.port, key.host, v⟩ :: live) := by
  obtain ⟨addrs, t, hrep, hwf, hchained⟩ := h
  obtain ⟨addrs', hrep'⟩ := hrep.append hash key v hne hnew
  exact ⟨addrs', _, hrep', hwf.append key.host key.port v, hchained.push ⟨key.port, key.host, v⟩⟩

/-- `ephashtable_remove` removes the newest entry of the key, and nothing else. -/
theorem Tracks.remove (h : Tracks hash m live) (key : EndpointKey) :
    Tracks hash (m.remove hash key) (live.eraseP key.Of) := by
  obtain ⟨addrs, t, hrep, hwf, hchained⟩ := h
  obtain ⟨addrs', hrep'⟩ := hrep.remove hwf key
  refine ⟨addrs', _, hrep', hwf.remove key.host key.port, ?_⟩
  have hkey : ∀ e, key.Of e → (e.host, e.port) = (key.host, key.port) :=
    fun e he => EndpointKey.of_iff.mp he
  have hnone : (t.table (t.index hash key.host key.port)).find? key.Of = none →
      live.eraseP key.Of = live := hchained.eraseP_of_find?_eq_none hkey
  unfold EpHashTable.remove
  split
  · rename_i hzero
    rw [hnone]
    · exact hchained
    · rw [hwf.table_eq_nil hzero _ (hwf.index_lt _ _)]
      rfl
  simp only
  split
  · rename_i hfind
    rw [hnone hfind]
    exact hchained
  · exact hchained.forget hkey

/-- One call keeps the table and the live entries together. -/
theorem Tracks.step (h : Tracks hash m live) {i : TableInput} {m' : EpMemory}
    (hstep : m.step hash i = some m') : Tracks hash m' (liveStep live i) := by
  cases i with
  | append key entry value =>
    rw [EpMemory.step] at hstep
    split at hstep
    · cases hstep
    · rename_i hfree
      obtain ⟨hne, hnew⟩ := not_or.mp hfree
      cases hstep
      exact h.append key value hne hnew
  | remove key =>
    cases hstep
    exact h.remove key

/-- `ephashtable_find` finds the newest live entry of the key. -/
theorem Tracks.find_eq (h : Tracks hash m live) (key : EndpointKey) :
    m.find hash key = (live.find? key.Of).map Endpoint.value := by
  obtain ⟨addrs, t, hrep, hwf, hchained⟩ := h
  have hsearch : (t.table (t.index hash key.host key.port)).find? key.Of = live.find? key.Of :=
    hchained.find?_chain fun e he => EndpointKey.of_iff.mp he
  rw [hrep.find_eq hwf, EpHashTable.find, ← hsearch]
  split
  · rename_i hzero
    rw [hwf.table_eq_nil hzero _ (hwf.index_lt _ _)]
    rfl
  · rfl

/-- Following the links finds the whole chain. -/
theorem Represents.chain_eq (h : Represents m addrs t) (hwf : t.WellFormed hash) {b : Nat}
    (hb : b < t.size) : m.chain b = addrs b :=
  (h.links b).follow_eq (h.length_le hwf hb)

/-- Every chain ends at `NULL`. -/
theorem Tracks.links (h : Tracks hash m live) {b : Nat} (hb : b < m.size) :
    Chain m.next 0 (m.table b) (m.chain b) := by
  obtain ⟨addrs, t, hrep, hwf, -⟩ := h
  rw [hrep.chain_eq hwf (hrep.size ▸ hb)]
  exact hrep.links b

/-- The chains hold the live entries. -/
theorem Tracks.entries_perm (h : Tracks hash m live) : m.entries.Perm live := by
  obtain ⟨addrs, t, hrep, hwf, hchained⟩ := h
  have hentries : m.entries = (List.range t.size).flatMap t.table := by
    rw [EpMemory.entries, hrep.size, List.flatMap_def, List.flatMap_def]
    congr 1
    refine List.map_congr_left fun b hb => ?_
    rw [hrep.chain_eq hwf (List.mem_range.mp hb), hrep.table]
  rw [hentries]
  exact hchained.flatMap_perm List.nodup_range fun k => List.mem_range.mpr (hwf.index_lt _ _)

theorem Tracks.count_eq (h : Tracks hash m live) : m.count = m.entries.length := by
  rw [h.entries_perm.length_eq]
  obtain ⟨addrs, t, hrep, hwf, hchained⟩ := h
  rw [hrep.count, ← hwf.length_entries, EpHashTable.entries]
  exact (hchained.flatMap_perm List.nodup_range
    fun k => List.mem_range.mpr (hwf.index_lt _ _)).length_eq

/-- A run keeps the table and the live entries together. -/
theorem Tracks.of_run {count : BitVec 32} (hsize : 0 < (nextpow2 count).toNat)
    {is : List TableInput} (hrun : Run (EpMemory.step hash) (EpMemory.create count) is m) :
    Tracks hash m (EpMemory.live is) := by
  induction hrun with
  | nil => exact Tracks.create hsize
  | snoc _ _ hs ih =>
    rw [EpMemory.live, List.foldl_append]
    exact ih.step hs

/-- In any run the table answers like the list of the entries that were appended and not
removed: a search finds the newest one of the key, a removal takes out this one and is not seen
by other keys, and the count is the number of entries in all chains, each of which ends. -/
theorem ephashtable_newest (hash : CString → BitVec 16 → BitVec 32) {count : BitVec 32} {k : Nat}
    (hsize : (nextpow2 count).toNat = 2 ^ k) {is : List TableInput} {m : EpMemory}
    (hrun : Run (EpMemory.step hash) (create count) is m) :
    (∀ key, m.find hash key = ((EpMemory.live is).find? key.Of).map Endpoint.value) ∧
    (∀ key, m.entries.Perm
      (((EpMemory.live is).find? key.Of).toList ++ (m.remove hash key).entries)) ∧
    (∀ key key', key' ≠ key → (m.remove hash key).find hash key' = m.find hash key') ∧
    (∀ b < m.size, Chain m.next 0 (m.table b) (m.chain b)) ∧
    m.count = m.entries.length := by
  have h := Tracks.of_run (hsize ▸ Nat.two_pow_pos k) hrun
  refine ⟨h.find_eq, fun key => ?_, fun key key' hne => ?_, fun b hb => h.links hb, h.count_eq⟩
  · refine h.entries_perm.trans ((perm_find?_append_eraseP key.Of _).trans ?_)
    exact (h.remove key).entries_perm.symm.append_left _
  · rw [(h.remove key).find_eq, h.find_eq,
      find?_eraseP_of_disjoint fun e he => EndpointKey.not_of hne he]

/-- Every power of two a `uint32_t` can hold is the size of a table. -/
theorem nextpow2_twoPow (k : Fin 32) : (nextpow2 (BitVec.twoPow 32 k)).toNat = 2 ^ k.val := by
  decide +revert

/-- Two endpoints in one chain, one of them twice: the older entry is found again. -/
theorem ephashtable_newest_collision :
    let a : EndpointKey := ⟨[0x61], 80, by decide⟩
    let b : EndpointKey := ⟨[0x62], 80, by decide⟩
    let is : List TableInput :=
      [.append a 1 10, .append b 2 20, .append a 3 30, .remove b, .remove a]
    ∃ m, Run (EpMemory.step fun _ _ => 5) (create (BitVec.twoPow 32 2)) is m ∧
      m.find (fun _ _ => 5) a = some 10 ∧ m.count = m.entries.length := by
  intro a b is
  have hrun : Run (EpMemory.step fun _ _ => 5) (create (BitVec.twoPow 32 2)) is _ :=
    run_iff_exec.mpr rfl
  obtain ⟨hfind, -, -, -, hcount⟩ := ephashtable_newest (fun _ _ => 5) (nextpow2_twoPow 2) hrun
  exact ⟨_, hrun, hfind a, hcount⟩

end EpMemory

end Evlite
