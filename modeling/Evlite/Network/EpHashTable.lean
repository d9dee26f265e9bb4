import Evlite.Lib.Buckets
import Evlite.Lib.Chaining
import Mathlib.Algebra.BigOperators.Group.Finset.Basic
import Mathlib.Data.BitVec
import Mathlib.Data.Finset.Range
import Mathlib.Logic.Function.Basic

/-!
# The Endpoint Table

The hash table of endpoints (`ephashtable.c`). An endpoint is a host, a string of bytes, and a
port; the table is an array of chains of entries. The functions are stated for any hash
function; `getHashkey` is the one of the source. `value` is the address of the payload that is
allocated with an entry.

The calls of `helper` are not made here: `remove` answers with the entry it calls it for, and
`entries` lists those `destroy` calls it for.

## Main results

- `WellFormed`: every entry is in the chain of its endpoint, and the count is right.
- `values`: the payloads of an endpoint, the most recent one first.
- `find_eq`, `append_values`, `remove_values`: what the functions do to the payloads.
-/

namespace Evlite

/-- A string of the source, without its final zero. -/
abbrev CString := List (BitVec 8)

/-! ## The hash function -/

/-- Mix four bytes into the hash. -/
def hashMix (h k : BitVec 32) : BitVec 32 :=
  let m : BitVec 32 := 0x5bd1e995
  let k := k * m
  let k := k ^^^ (k >>> 24)
  let k := k * m
  (h * m) ^^^ k

/-- The loop of `_hash_function` and the bytes behind it. -/
def hashBytes (h : BitVec 32) : CString → BitVec 32
  | a :: b :: c :: d :: rest => hashBytes (hashMix h (d ++ c ++ b ++ a)) rest
  | [a, b, c] =>
    (h ^^^ (c.setWidth 32 <<< 16) ^^^ (b.setWidth 32 <<< 8) ^^^ a.setWidth 32) * 0x5bd1e995
  | [a, b] => (h ^^^ (b.setWidth 32 <<< 8) ^^^ a.setWidth 32) * 0x5bd1e995
  | [a] => (h ^^^ a.setWidth 32) * 0x5bd1e995
  | [] => h

/-- `_hash_function` -/
def hashFunction (key : CString) : BitVec 32 :=
  let h := hashBytes (5381 ^^^ BitVec.ofNat 32 key.length) key
  let h := (h ^^^ (h >>> 13)) * 0x5bd1e995
  h ^^^ (h >>> 15)

/-- `_get_hashkey`: the hash of `host::port`. The hosts come from `parse_endpoint` and have less
than `INET6_ADDRSTRLEN` bytes, so that the key fits into its buffer. -/
def getHashkey (host : CString) (port : BitVec 16) : BitVec 32 :=
  let digits := (Nat.toDigits 10 port.toNat).map fun c => BitVec.ofNat 8 c.toNat
  hashFunction (host ++ [0x3a, 0x3a] ++ digits)

/-! ## The table -/

/-- `struct endpoint`. The chain it is in takes the place of `next`. -/
structure Endpoint where
  port : BitVec 16
  host : CString
  value : Nat
deriving DecidableEq, Repr

/-- The comparison of `ephashtable_find` and `ephashtable_remove`. -/
def Endpoint.Matches (e : Endpoint) (host : CString) (port : BitVec 16) : Bool :=
  port == e.port && host == e.host

/-- `struct ephashtable` -/
structure EpHashTable where
  table : Nat → List Endpoint
  size : Nat
  sizemask : Nat
  count : Nat

/-- `nextpow2` -/
def nextpow2 (size : BitVec 32) : BitVec 32 :=
  let size := size - 1
  let size := size ||| (size >>> 1)
  let size := size ||| (size >>> 2)
  let size := size ||| (size >>> 4)
  let size := size ||| (size >>> 8)
  let size := size ||| (size >>> 16)
  size + 1

namespace EpHashTable

variable (hash : CString → BitVec 16 → BitVec 32)

/-- `ephashtable_create` -/
def create (count : BitVec 32) : EpHashTable where
  table _ := []
  size := (nextpow2 count).toNat
  sizemask := (nextpow2 count).toNat - 1
  count := 0

/-- The chain of an endpoint: the hash masked with `sizemask`. -/
def index (t : EpHashTable) (host : CString) (port : BitVec 16) : Nat :=
  (hash host port).toNat &&& t.sizemask

/-- `ephashtable_find` -/
def find (t : EpHashTable) (host : CString) (port : BitVec 16) : Option Nat :=
  if t.count = 0 then none
  else
    let head := t.table (t.index hash host port)
    (head.find? fun e => e.Matches host port).map Endpoint.value

/-- `ephashtable_remove`: the table and the entry that was removed. -/
def remove (t : EpHashTable) (host : CString) (port : BitVec 16) : EpHashTable × Option Endpoint :=
  if t.count = 0 then (t, none)
  else
    let index := t.index hash host port
    let head := t.table index
    match head.find? fun e => e.Matches host port with
    | none => (t, none)
    | some e =>
      ({ t with
          table := Function.update t.table index (head.eraseP fun e => e.Matches host port)
          count := t.count - 1 }, some e)

/-- `ephashtable_append`, whose allocation yields the payload `value`. -/
def append (t : EpHashTable) (host : CString) (port : BitVec 16) (value : Nat) : EpHashTable :=
  let index := t.index hash host port
  { t with
    table := Function.update t.table index (⟨port, host, value⟩ :: t.table index)
    count := t.count + 1 }

/-- The entries `ephashtable_destroy` calls `helper` for, in this order. -/
def entries (t : EpHashTable) : List Endpoint :=
  (List.range t.size).flatMap t.table

/-! ## What the functions do -/

/-- The payloads of an endpoint, in the order of its chain. -/
def values (t : EpHashTable) (host : CString) (port : BitVec 16) : List Nat :=
  ((t.table (t.index hash host port)).filter fun e => e.Matches host port).map Endpoint.value

/-- Every entry is in the chain of its endpoint, and the count is right. -/
structure WellFormed (t : EpHashTable) : Prop where
  mask : t.sizemask < t.size
  index : ∀ b, ∀ e ∈ t.table b, t.index hash e.host e.port = b
  count : t.count = ∑ b ∈ Finset.range t.size, (t.table b).length

theorem matches_iff {e : Endpoint} {host : CString} {port : BitVec 16} :
    e.Matches host port = true ↔ e.host = host ∧ e.port = port := by
  simp only [Endpoint.Matches, Bool.and_eq_true, beq_iff_eq]
  exact ⟨fun ⟨hp, hh⟩ => ⟨hh.symm, hp.symm⟩, fun ⟨hh, hp⟩ => ⟨hp.symm, hh.symm⟩⟩

variable {hash} {t : EpHashTable}

theorem WellFormed.index_lt (h : t.WellFormed hash) (host : CString) (port : BitVec 16) :
    t.index hash host port < t.size :=
  Nat.lt_of_le_of_lt Nat.and_le_right h.mask

/-- A payload of an endpoint belongs to an entry of the table, and the other way round. -/
theorem WellFormed.mem_values (h : t.WellFormed hash) {b : Nat} {e : Endpoint}
    (he : e ∈ t.table b) : e.value ∈ t.values hash e.host e.port := by
  refine List.mem_map.mpr ⟨e, List.mem_filter.mpr ⟨?_, matches_iff.mpr ⟨rfl, rfl⟩⟩, rfl⟩
  rw [h.index b e he]
  exact he

theorem exists_of_mem_values {host : CString} {port : BitVec 16} {v : Nat}
    (hv : v ∈ t.values hash host port) :
    ⟨port, host, v⟩ ∈ t.table (t.index hash host port) := by
  obtain ⟨e, he, rfl⟩ := List.mem_map.mp hv
  obtain ⟨he, hmatch⟩ := List.mem_filter.mp he
  obtain ⟨rfl, rfl⟩ := matches_iff.mp hmatch
  exact he

/-- An empty table has only empty chains. -/
theorem WellFormed.table_eq_nil (h : t.WellFormed hash) (hzero : t.count = 0) (b : Nat)
    (hb : b < t.size) : t.table b = [] := by
  have hsum := h.count
  rw [hzero] at hsum
  exact Lib.total_eq_zero_iff.mp hsum.symm b hb

/-- `ephashtable_find` finds the most recent payload. -/
theorem WellFormed.find_eq (h : t.WellFormed hash) (host : CString) (port : BitVec 16) :
    t.find hash host port = (t.values hash host port).head? := by
  rw [find, values, List.head?_map, List.head?_filter]
  split
  · rename_i hzero
    rw [h.table_eq_nil hzero _ (h.index_lt host port)]
    rfl
  · rfl

/-! ### The update of one chain -/

/-- Two endpoints that differ do not match the same entry. -/
private theorem not_matches {e : Endpoint} {host host' : CString} {port port' : BitVec 16}
    (hne : ¬ (host' = host ∧ port' = port)) (he : e.Matches host port) :
    ¬ e.Matches host' port' := by
  intro he'
  obtain ⟨hhost, hport⟩ := matches_iff.mp he
  obtain ⟨hhost', hport'⟩ := matches_iff.mp he'
  exact hne ⟨hhost'.symm.trans hhost, hport'.symm.trans hport⟩

/-- The payloads of an endpoint after one chain has changed. -/
private theorem values_update {chain : List Endpoint} {n b : Nat} (host : CString)
    (port : BitVec 16) :
    ({ t with table := Function.update t.table b chain
              count := n } : EpHashTable).values hash host port =
      if t.index hash host port = b
      then (chain.filter fun e => e.Matches host port).map Endpoint.value
      else t.values hash host port := by
  change List.map _ (List.filter _ (Function.update t.table b chain (t.index hash host port))) = _
  split
  · rename_i hb
    rw [hb, Function.update_self]
  · rename_i hb
    rw [Function.update_of_ne hb, values]

/-- Where the endpoint has the same entries in the new chain, its payloads are the same. -/
private theorem values_update_of_filter {chain : List Endpoint} {n b : Nat} {host : CString}
    {port : BitVec 16}
    (hchain : (chain.filter fun e => e.Matches host port) =
      (t.table b).filter fun e => e.Matches host port) :
    ({ t with table := Function.update t.table b chain
              count := n } : EpHashTable).values hash host port = t.values hash host port := by
  rw [values_update]
  split
  · rename_i hb
    rw [hchain, ← hb, values]
  · rfl

/-- A chain of the table changes; the count follows its length. -/
private theorem WellFormed.update (h : t.WellFormed hash) {chain : List Endpoint} {n b : Nat}
    (hb : b < t.size) (hindex : ∀ e ∈ chain, t.index hash e.host e.port = b)
    (hcount : n + (t.table b).length = t.count + chain.length) :
    ({ t with table := Function.update t.table b chain
              count := n } : EpHashTable).WellFormed hash where
  mask := h.mask
  index b' e he := by
    change e ∈ Function.update t.table b chain b' at he
    by_cases hbb : b' = b
    · subst hbb
      rw [Function.update_self] at he
      exact hindex e he
    · rw [Function.update_of_ne hbb] at he
      exact h.index b' e he
  count := by
    change n = ∑ b' ∈ Finset.range t.size, (Function.update t.table b chain b').length
    have htotal := Lib.total_update hb t.table chain
    unfold Lib.total at htotal
    have hcount' := h.count
    omega

/-! ### The functions -/

/-- A new table is empty. -/
theorem create_wellFormed {count : BitVec 32} (hsize : 0 < (nextpow2 count).toNat) :
    (create count).WellFormed hash where
  mask := Nat.sub_lt hsize Nat.one_pos
  index _ _ he := absurd he List.not_mem_nil
  count := (Finset.sum_eq_zero fun _ _ => rfl).symm

theorem WellFormed.append (h : t.WellFormed hash) (host : CString) (port : BitVec 16) (v : Nat) :
    (t.append hash host port v).WellFormed hash := by
  refine h.update (h.index_lt host port) (fun e he => ?_) (by simp only [List.length_cons]; omega)
  rcases List.mem_cons.mp he with rfl | he
  · rfl
  · exact h.index _ e he

/-- `ephashtable_append` puts its payload before those the endpoint has. -/
theorem append_values (host : CString) (port : BitVec 16) (v : Nat) (host' : CString)
    (port' : BitVec 16) :
    (t.append hash host port v).values hash host' port' =
      if host' = host ∧ port' = port then v :: t.values hash host port
      else t.values hash host' port' := by
  split
  · rename_i heq
    obtain ⟨rfl, rfl⟩ := heq
    have hself : Endpoint.Matches ⟨port', host', v⟩ host' port' := matches_iff.mpr ⟨rfl, rfl⟩
    rw [EpHashTable.append, values_update, if_pos rfl, List.filter_cons, if_pos hself,
      List.map_cons, values]
  · rename_i hne
    exact values_update_of_filter (List.filter_cons_of_neg
      (not_matches (e := ⟨port, host, v⟩) hne (matches_iff.mpr ⟨rfl, rfl⟩)))

theorem WellFormed.remove (h : t.WellFormed hash) (host : CString) (port : BitVec 16) :
    (t.remove hash host port).1.WellFormed hash := by
  unfold EpHashTable.remove
  split
  · exact h
  rename_i hcount
  simp only
  split
  · exact h
  · rename_i e hfind
    refine h.update (h.index_lt host port) (fun e' he' => ?_) ?_
    · exact h.index _ e' (List.mem_of_mem_eraseP he')
    · rw [List.length_eraseP_of_mem (List.mem_of_find?_eq_some hfind) (List.find?_some hfind)]
      have hpos : 0 < (t.table (t.index hash host port)).length :=
        List.length_pos_of_mem (List.mem_of_find?_eq_some hfind)
      omega

/-- `ephashtable_remove` removes the most recent payload of the endpoint, and no other. -/
theorem WellFormed.remove_values (h : t.WellFormed hash) (host : CString) (port : BitVec 16)
    (host' : CString) (port' : BitVec 16) :
    (t.remove hash host port).1.values hash host' port' =
      if host' = host ∧ port' = port then (t.values hash host port).tail
      else t.values hash host' port' := by
  -- where nothing is found, the endpoint has no payload
  have hnone : t.find hash host port = none →
      t.values hash host' port' = if host' = host ∧ port' = port
        then (t.values hash host port).tail else t.values hash host' port' := by
    intro hfind
    rw [h.find_eq, List.head?_eq_none_iff] at hfind
    split
    · rename_i heq
      rw [heq.1, heq.2, hfind]
      rfl
    · rfl
  unfold EpHashTable.remove
  split
  · rename_i hzero
    exact hnone (if_pos hzero)
  rename_i hcount
  simp only
  split
  · rename_i hfind
    refine hnone ((if_neg hcount).trans ?_)
    simp only [hfind, Option.map_none]
  split
  · rename_i heq
    obtain ⟨rfl, rfl⟩ := heq
    rw [values_update, if_pos rfl, Lib.filter_eraseP_self, List.map_tail, values]
  · rename_i hne
    exact values_update_of_filter
      (Lib.filter_eraseP_of_disjoint (fun _ he => not_matches hne he) _)

/-- The entry that is freed is the one of the most recent payload. -/
theorem WellFormed.remove_value (h : t.WellFormed hash) (host : CString) (port : BitVec 16) :
    (t.remove hash host port).2.map Endpoint.value = (t.values hash host port).head? := by
  rw [← h.find_eq]
  unfold EpHashTable.remove find
  split
  · rfl
  simp only
  split <;> rename_i hfind <;> simp only [hfind, Option.map_none, Option.map_some]

/-! ### All entries -/

/-- `ephashtable_destroy` comes by every entry of the table. -/
theorem WellFormed.mem_entries (h : t.WellFormed hash) {e : Endpoint} :
    e ∈ t.entries ↔ e.value ∈ t.values hash e.host e.port := by
  rw [entries, List.mem_flatMap]
  constructor
  · rintro ⟨b, -, he⟩
    exact h.mem_values he
  · intro hv
    exact ⟨_, List.mem_range.mpr (h.index_lt e.host e.port), exists_of_mem_values hv⟩

/-- There are as many entries as the table counts. -/
theorem WellFormed.length_entries (h : t.WellFormed hash) : t.entries.length = t.count := by
  rw [entries, List.length_flatMap, h.count]
  exact (Multiset.sum_coe _).symm

/-- Where no endpoint has two payloads, every entry is in the table once. -/
theorem WellFormed.nodup_entries (h : t.WellFormed hash)
    (hsingle : ∀ host port, (t.values hash host port).length ≤ 1) : t.entries.Nodup := by
  refine List.nodup_flatMap.mpr ⟨fun b _ => ?_, ?_⟩
  · refine List.nodup_iff_count_le_one.mpr fun e => ?_
    by_cases he : e ∈ t.table b
    · -- an entry matches its own endpoint each time it occurs
      have hmatches : (t.table b).count e ≤ (t.table b).countP fun e' => e'.Matches e.host e.port :=
        List.countP_mono_left fun e' _ heq => by
          rw [eq_of_beq heq]
          exact matches_iff.mpr ⟨rfl, rfl⟩
      have hvalues := hsingle e.host e.port
      rw [values, h.index b e he, List.length_map, ← List.countP_eq_length_filter] at hvalues
      exact hmatches.trans hvalues
    · rw [List.count_eq_zero_of_not_mem he]
      exact Nat.zero_le 1
  · -- the index of an entry tells its chain
    refine List.nodup_range.imp fun hne e he he' => hne ?_
    exact (h.index _ e he).symm.trans (h.index _ e he')

end EpHashTable

end Evlite
