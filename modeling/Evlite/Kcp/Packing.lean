import Evlite.Kcp.Flush

/-!
# Packing Segments into Datagrams

A flush writes segment after segment into `kcp->buffer` and passes the buffer on when the next
one does not fit into the `mtu` any more. A segment that does not fit into an empty buffer
either is written nevertheless: `ikcp_setmtu` does not cut the segments that are waiting, and
makes a new buffer of three times the new size.

## Main results

- `pack_within_iff`: no datagram is longer than the `mtu` if and only if no segment is.
- `pack_reads`: from the datagrams one reads the segments again, in their order.
-/

namespace Evlite

/-! ## Segments that go out together -/

/-- The segments of each datagram, when those in `waiting` are in the buffer already. -/
def packetsInto (mtu : Nat) (waiting : List Packet) : List Packet → List (List Packet)
  | [] => if waiting = [] then [] else [waiting]
  | p :: ps =>
    if mtu < (datagram waiting).length + (ikcpOverhead + p.data.length) then
      (if waiting = [] then [] else [waiting]) ++ packetsInto mtu [p] ps
    else packetsInto mtu (waiting ++ [p]) ps

theorem datagram_append (ps qs : List Packet) : datagram (ps ++ qs) = datagram ps ++ datagram qs :=
  List.flatMap_append

theorem datagram_singleton (p : Packet) : datagram [p] = p.encode := by
  simp [datagram]

theorem datagram_length_eq_zero {ps : List Packet} : (datagram ps).length = 0 ↔ ps = [] := by
  cases ps with
  | nil => simp [datagram]
  | cons p ps => simp [datagram, ikcpOverhead]

theorem mem_datagram_length {p : Packet} {ps : List Packet} (h : p ∈ ps) :
    p.encode.length ≤ (datagram ps).length := by
  induction ps with
  | nil => cases h
  | cons q ps ih =>
    rw [datagram, List.flatMap_cons, List.length_append]
    rcases List.mem_cons.mp h with rfl | h
    · omega
    · have hrest := ih h
      rw [datagram] at hrest
      omega

/-- The datagrams are made of the segments that go out together. -/
theorem packInto_eq (mtu : Nat) (waiting ps : List Packet) :
    packInto mtu (datagram waiting) ps = (packetsInto mtu waiting ps).map datagram := by
  induction ps generalizing waiting with
  | nil =>
    unfold packInto packetsInto
    by_cases hempty : waiting = []
    · simp [hempty, datagram]
    · have hlength := Nat.pos_of_ne_zero (datagram_length_eq_zero.not.mpr hempty)
      rw [if_pos hlength, if_neg hempty]
      rfl
  | cons p ps ih =>
    unfold packInto packetsInto
    split
    · rw [← datagram_singleton p, ih, List.map_append]
      simp only [datagram_length_eq_zero]
      split <;> rfl
    · rw [← ih, datagram_append, datagram_singleton]

/-- Each segment goes out, and their order is kept. -/
theorem packetsInto_flatten (mtu : Nat) (waiting ps : List Packet) :
    (packetsInto mtu waiting ps).flatten = waiting ++ ps := by
  have hclose : ∀ qs : List Packet, (if qs = [] then [] else [qs]).flatten = qs := by
    intro qs
    split
    · rename_i hnil
      rw [hnil]
      rfl
    · simp
  induction ps generalizing waiting with
  | nil => rw [packetsInto, hclose, List.append_nil]
  | cons p ps ih =>
    unfold packetsInto
    split
    · rw [List.flatten_append, hclose, ih]
      rfl
    · rw [ih, List.append_assoc]
      rfl

/-- No datagram is without a segment. -/
theorem packetsInto_ne_nil (mtu : Nat) (waiting ps : List Packet) :
    ∀ qs ∈ packetsInto mtu waiting ps, qs ≠ [] := by
  have hclose : ∀ waiting : List Packet,
      ∀ qs ∈ (if waiting = [] then [] else [waiting]), qs ≠ [] := by
    intro waiting qs hqs
    split at hqs
    · cases hqs
    · rename_i hne
      rw [List.mem_singleton.mp hqs]
      exact hne
  induction ps generalizing waiting with
  | nil => exact hclose waiting
  | cons p ps ih =>
    unfold packetsInto
    split
    · intro qs hqs
      rcases List.mem_append.mp hqs with hqs | hqs
      · exact hclose waiting qs hqs
      · exact ih [p] qs hqs
    · exact ih (waiting ++ [p])

theorem pack_eq (mtu : Nat) (ps : List Packet) : pack mtu ps = (packetsInto mtu [] ps).map datagram :=
  packInto_eq mtu [] ps

/-! ## Main results -/

theorem packetsInto_within {mtu : Nat} {waiting ps : List Packet}
    (hwaiting : (datagram waiting).length ≤ mtu) (hps : ∀ p ∈ ps, p.encode.length ≤ mtu) :
    ∀ qs ∈ packetsInto mtu waiting ps, (datagram qs).length ≤ mtu := by
  have hclose : ∀ qs ∈ (if waiting = [] then [] else [waiting]), (datagram qs).length ≤ mtu := by
    intro qs hqs
    split at hqs
    · cases hqs
    · rw [List.mem_singleton.mp hqs]
      exact hwaiting
  induction ps generalizing waiting with
  | nil => exact hclose
  | cons p ps ih =>
    have hp := hps p List.mem_cons_self
    have hrest := fun q hq => hps q (List.mem_cons_of_mem p hq)
    have hnext : ∀ {waiting : List Packet}, (datagram waiting).length ≤ mtu →
        ∀ qs ∈ packetsInto mtu waiting ps, (datagram qs).length ≤ mtu := by
      intro waiting hlength
      apply ih hlength hrest
      intro qs hqs
      split at hqs
      · cases hqs
      · rw [List.mem_singleton.mp hqs]
        exact hlength
    unfold packetsInto
    split
    · intro qs hqs
      rcases List.mem_append.mp hqs with hqs | hqs
      · exact hclose qs hqs
      · exact hnext (by rwa [datagram_singleton]) qs hqs
    · rename_i hfits
      apply hnext
      rw [datagram_append, List.length_append, datagram_singleton, Packet.encode_length]
      omega

/-- No datagram is longer than the `mtu` if and only if no segment is. -/
theorem pack_within_iff (mtu : Nat) (ps : List Packet) :
    (∀ d ∈ pack mtu ps, d.length ≤ mtu) ↔ ∀ p ∈ ps, p.encode.length ≤ mtu := by
  rw [pack_eq]
  constructor
  · intro h p hp
    -- the datagram that the segment went out in
    have hflat : p ∈ (packetsInto mtu [] ps).flatten := by
      rw [packetsInto_flatten]
      exact hp
    obtain ⟨qs, hqs, hmem⟩ := List.mem_flatten.mp hflat
    exact Nat.le_trans (mem_datagram_length hmem) (h _ (List.mem_map_of_mem hqs))
  · intro h d hd
    obtain ⟨qs, hqs, rfl⟩ := List.mem_map.mp hd
    exact packetsInto_within (Nat.zero_le _) h qs hqs

/-- From the datagrams one reads the segments again, in their order. -/
theorem pack_reads {conv : BitVec 32} (mtu : Nat) {ps : List Packet}
    (hps : ∀ p ∈ ps, p.Valid conv) :
    ((pack mtu ps).map fun d => (parseDatagram conv d).1).flatten = ps ∧
      ∀ d ∈ pack mtu ps, d = datagram (parseDatagram conv d).1 ∧ (parseDatagram conv d).2 = 0 := by
  have hflatten := packetsInto_flatten mtu [] ps
  have hread : ∀ qs ∈ packetsInto mtu [] ps, parseDatagram conv (datagram qs) = (qs, 0) := by
    intro qs hqs
    apply parseDatagram_datagram
    intro p hp
    apply hps p
    have hflat := List.mem_flatten.mpr ⟨qs, hqs, hp⟩
    rwa [hflatten] at hflat
  rw [pack_eq]
  constructor
  · have hsame : (packetsInto mtu [] ps).map ((fun d => (parseDatagram conv d).1) ∘ datagram) =
        packetsInto mtu [] ps := by
      conv_rhs => rw [← List.map_id (packetsInto mtu [] ps)]
      exact List.map_congr_left fun qs hqs => congrArg Prod.fst (hread qs hqs)
    rw [List.map_map, hsame]
    exact hflatten
  · intro d hd
    obtain ⟨qs, hqs, rfl⟩ := List.mem_map.mp hd
    rw [hread qs hqs]
    exact ⟨rfl, rfl⟩

end Evlite
