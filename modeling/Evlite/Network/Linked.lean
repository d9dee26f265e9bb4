import Evlite.Lib.PartialMap
import Evlite.Network.Endpoints

/-!
# The Table of an Acceptor and its Sessions

## Main results

- `Linked`: the tables, the entries and the drivers of the sessions point to each other.
- `EndsOnly`: what a callback does to the layer. It ends sessions and frees their entries.
- `linked_of_run`: every state a layer can reach is `Linked`.
- `endpoints_of_run`: the table of an acceptor has one entry for each of its live sessions, and
  sends each datagram to the session of its endpoint.
-/

namespace Evlite

open Lib

namespace Udp

/-- The tables, the entries and the drivers of the live sessions point to each other. -/
structure Linked (st : Layer) : Prop where
  /-- The tables are in order. -/
  wellFormed : ∀ a t, st.eptable a = some t → t.WellFormed getHashkey
  /-- No endpoint has two entries. -/
  single : ∀ a t, st.eptable a = some t → ∀ host port, (t.values getHashkey host port).length ≤ 1
  /-- An entry is in use, and it is the one of a live session with its endpoint. -/
  entry : ∀ a t, st.eptable a = some t → ∀ host port, ∀ e ∈ t.values getHashkey host port,
    st.allocated e = true ∧ (st.udpentry e).hashtable = a ∧
      ∃ r, st.session (st.udpentry e).session = some r ∧ r.acceptor = a ∧ r.host = host ∧
        r.port = port ∧ r.driver = ⟨some e⟩
  /-- A live session has an entry in the table of its acceptor. -/
  linked : ∀ s r t, st.session s = some r → st.eptable r.acceptor = some t →
    ∃ e, r.driver = ⟨some e⟩ ∧ st.udpentry e = ⟨s, r.acceptor⟩ ∧
      e ∈ t.values getHashkey r.host r.port
  /-- It has none once the acceptor is freed. -/
  unlinked : ∀ s r, st.session s = some r → st.eptable r.acceptor = none → r.driver = ⟨none⟩
  /-- The acceptors that are still to come have neither a table nor a session. -/
  fresh : ∀ a, st.acceptors ≤ a → st.eptable a = none
  known : ∀ s r, st.session s = some r → r.acceptor < st.acceptors

variable {st : Layer} {a s : Nat} {t : EpHashTable} {r : SharedSession}

theorem linked_initial : Linked initial where
  wellFormed _ _ ht := nomatch ht
  single _ _ ht := nomatch ht
  entry _ _ ht := nomatch ht
  linked _ _ _ hs := nomatch hs
  unlinked _ _ hs := nomatch hs
  fresh _ _ := rfl
  known _ _ hs := nomatch hs

/-- The entry of a live session is the only one of its endpoint. -/
theorem Linked.exists_values_eq (h : Linked st) (hs : st.session s = some r)
    (ht : st.eptable r.acceptor = some t) :
    ∃ e, r.driver = ⟨some e⟩ ∧ st.udpentry e = ⟨s, r.acceptor⟩ ∧
      t.values getHashkey r.host r.port = [e] := by
  obtain ⟨e, hdriver, hentry, he⟩ := h.linked s r t hs ht
  refine ⟨e, hdriver, hentry, ?_⟩
  have hsingle := h.single _ t ht r.host r.port
  obtain ⟨v, hv⟩ := List.length_eq_one_iff.mp
    (Nat.le_antisymm hsingle (List.length_pos_of_mem he))
  rw [hv, List.mem_singleton] at he
  rw [hv, he]

/-- Two live sessions of an acceptor have different endpoints. -/
theorem Linked.eq_of_endpoint (h : Linked st) {s' : Nat} {r' : SharedSession}
    (hs : st.session s = some r) (hs' : st.session s' = some r')
    (ht : st.eptable r.acceptor = some t) (hacceptor : r'.acceptor = r.acceptor)
    (hhost : r'.host = r.host) (hport : r'.port = r.port) : s' = s := by
  obtain ⟨e, -, hentry, hvalues⟩ := h.exists_values_eq hs ht
  obtain ⟨e', -, hentry', hvalues'⟩ := h.exists_values_eq hs' (hacceptor ▸ ht)
  rw [hhost, hport, hvalues] at hvalues'
  obtain rfl : e = e' := List.head_eq_of_cons_eq hvalues'
  rw [hentry] at hentry'
  exact (congrArg UdpEntry.session hentry').symm

/-- The table answers with the entry of the live session of an endpoint, if there is one. -/
theorem Linked.find_eq (h : Linked st) (hs : st.session s = some r)
    (ht : st.eptable r.acceptor = some t) :
    ∃ e, t.find getHashkey r.host r.port = some e ∧ (st.udpentry e).session = s := by
  obtain ⟨e, -, hentry, hvalues⟩ := h.exists_values_eq hs ht
  refine ⟨e, ?_, by rw [hentry]⟩
  rw [(h.wellFormed _ t ht).find_eq, hvalues, List.head?_cons]

/-- One table has changed, and in it the payloads of one endpoint. -/
private theorem Linked.table_update (h : Linked st) (ht : st.eptable a = some t)
    {t' : EpHashTable} {vs : List Nat} {host : CString} {port : BitVec 16}
    (hwf : t'.WellFormed getHashkey)
    (hvalues : ∀ host' port', t'.values getHashkey host' port' =
      if host' = host ∧ port' = port then vs else t.values getHashkey host' port')
    (a' : Nat) (t'' : EpHashTable)
    (ht'' : Function.update st.eptable a (some t') a' = some t'') :
    t''.WellFormed getHashkey ∧ ∃ t₀, st.eptable a' = some t₀ ∧ ∀ host' port',
      t''.values getHashkey host' port' =
        if a' = a ∧ host' = host ∧ port' = port then vs
        else t₀.values getHashkey host' port' := by
  rcases update_eq_some ht'' with ⟨rfl, heq⟩ | ⟨ha, ht''⟩
  · obtain rfl := Option.some.inj heq
    refine ⟨hwf, t, ht, fun host' port' => ?_⟩
    simp only [hvalues, true_and]
  · refine ⟨h.wellFormed a' t'' ht'', t'', ht'', fun host' port' => ?_⟩
    rw [if_neg fun hand => ha hand.1]

/-! ## The end of a session -/

/-- Sessions were ended and their entries freed, and nothing else. -/
structure EndsOnly (st st' : Layer) : Prop where
  running : st'.running = st.running
  session : ∀ s r, st'.session s = some r → st.session s = some r
  table : ∀ a t, st.eptable a = some t → ∃ t', st'.eptable a = some t' ∧
    ∀ host port, t.values getHashkey host port = [] → t'.values getHashkey host port = []

theorem EndsOnly.refl (st : Layer) : EndsOnly st st where
  running := rfl
  session _ _ hs := hs
  table _ t ht := ⟨t, ht, fun _ _ hnil => hnil⟩

theorem EndsOnly.trans {st st' st'' : Layer} (h : EndsOnly st st') (h' : EndsOnly st' st'') :
    EndsOnly st st'' where
  running := h'.running.trans h.running
  session s r hs := h.session s r (h'.session s r hs)
  table a t ht := by
    obtain ⟨t', ht', hnil⟩ := h.table a t ht
    obtain ⟨t'', ht'', hnil'⟩ := h'.table a t' ht'
    exact ⟨t'', ht'', fun host port hv => hnil' host port (hnil host port hv)⟩

/-- A session of an acceptor that is freed leaves the rest alone. -/
private theorem sessionEnd_unlinked (h : Linked st) (hs : st.session s = some r)
    (ht : st.eptable r.acceptor = none) :
    sessionEnd st s = { st with session := Function.update st.session s none } := by
  simp only [sessionEnd, hs, driverDestroy, h.unlinked s r hs ht]

/-- Otherwise its entry is taken out of the table and freed. -/
private theorem sessionEnd_linked (h : Linked st) (hs : st.session s = some r)
    (ht : st.eptable r.acceptor = some t) {e : Nat} (hdriver : r.driver = ⟨some e⟩)
    (hentry : st.udpentry e = ⟨s, r.acceptor⟩) (he : t.values getHashkey r.host r.port = [e]) :
    sessionEnd st s = { st with
      eptable := Function.update st.eptable r.acceptor
        (some (t.remove getHashkey r.host r.port).1)
      allocated := Function.update st.allocated e false
      session := Function.update st.session s none } := by
  have hfreed := (h.wellFormed _ t ht).remove_value r.host r.port
  rw [he, List.head?_cons, Option.map_eq_some_iff] at hfreed
  obtain ⟨freed, hfreed, rfl⟩ := hfreed
  simp only [sessionEnd, hs, driverDestroy, hdriver, hentry, ht, hfreed]

theorem sessionEnd_endsOnly (h : Linked st) (s : Nat) : EndsOnly st (sessionEnd st s) := by
  cases hs : st.session s with
  | none =>
    simp only [sessionEnd, hs]
    exact .refl st
  | some r =>
    have hsession : ∀ s' r', Function.update st.session s none s' = some r' →
        st.session s' = some r' :=
      fun s' r' hs' => (of_update_none hs').2
    cases ht : st.eptable r.acceptor with
    | none =>
      rw [sessionEnd_unlinked h hs ht]
      exact ⟨rfl, hsession, fun _ t ht => ⟨t, ht, fun _ _ hnil => hnil⟩⟩
    | some t =>
      -- only the entry of the session is taken out of its table
      obtain ⟨e, hdriver, hentry, he⟩ := h.exists_values_eq hs ht
      rw [sessionEnd_linked h hs ht hdriver hentry he]
      refine ⟨rfl, hsession, fun a t' ht' => ?_⟩
      by_cases ha : a = r.acceptor
      · subst ha
        obtain rfl : t = t' := Option.some.inj (ht.symm.trans ht')
        refine ⟨_, Function.update_self .., fun host port hnil => ?_⟩
        rw [(h.wellFormed _ t ht).remove_values, he, hnil]
        split <;> rfl
      · exact ⟨t', (Function.update_of_ne ha ..).trans ht', fun _ _ hnil => hnil⟩

/-- The end of a session keeps the others linked. -/
theorem Linked.sessionEnd (h : Linked st) (s : Nat) : Linked (Udp.sessionEnd st s) := by
  cases hs : st.session s with
  | none =>
    simp only [Udp.sessionEnd, hs]
    exact h
  | some r =>
    have hends := sessionEnd_endsOnly h s
    cases ht : st.eptable r.acceptor with
    | none =>
      rw [sessionEnd_unlinked h hs ht] at hends ⊢
      -- the session has no entry, so no entry is the one of the session
      refine
        { h with
          entry := fun a t' ht' host port e he => ?_
          linked := fun s' r' t' hs' => h.linked s' r' t' (hends.session s' r' hs')
          unlinked := fun s' r' hs' => h.unlinked s' r' (hends.session s' r' hs')
          known := fun s' r' hs' => h.known s' r' (hends.session s' r' hs') }
      obtain ⟨hallocated, hhash, r', hs', hacceptor, hrest⟩ := h.entry a t' ht' host port e he
      refine ⟨hallocated, hhash, r', ?_, hacceptor, hrest⟩
      refine (Function.update_of_ne (fun hss => ?_) ..).trans hs'
      rw [hss, hs] at hs'
      rw [Option.some.inj hs', hacceptor, ht'] at ht
      exact nomatch ht
    | some t =>
      obtain ⟨e, hdriver, hentry, he⟩ := h.exists_values_eq hs ht
      rw [sessionEnd_linked h hs ht hdriver hentry he] at hends ⊢
      have hwf := h.wellFormed _ t ht
      have htable := h.table_update ht (hwf.remove r.host r.port) (hwf.remove_values r.host r.port)
      simp only [he, List.tail_cons] at htable
      have hother : ∀ s' r', s' ≠ s → st.session s' = some r' →
          Function.update st.session s none s' = some r' :=
        fun s' r' hss hs' => (Function.update_of_ne hss ..).trans hs'
      exact
        { wellFormed := fun a t' ht' => (htable a t' ht').1
          single := fun a t' ht' host port => by
            obtain ⟨-, t₀, ht₀, hvalues⟩ := htable a t' ht'
            rw [hvalues]
            split
            · exact Nat.zero_le 1
            · exact h.single a t₀ ht₀ host port
          entry := fun a t' ht' host port e' he' => by
            obtain ⟨-, t₀, ht₀, hvalues⟩ := htable a t' ht'
            rw [hvalues] at he'
            split at he'
            · exact absurd he' List.not_mem_nil
            rename_i hne
            obtain ⟨hallocated, hhash, r', hs', hacceptor, hhost, hport, hdriver'⟩ :=
              h.entry a t₀ ht₀ host port e' he'
            -- the session of the entry is not the one that ends
            have hss : (st.udpentry e').session ≠ s := by
              intro hss
              rw [hss, hs] at hs'
              obtain rfl := Option.some.inj hs'
              exact hne ⟨hacceptor.symm, hhost.symm, hport.symm⟩
            refine ⟨?_, hhash, r', hother _ r' hss hs', hacceptor, hhost, hport, hdriver'⟩
            refine (Function.update_of_ne ?_ ..).trans hallocated
            rintro rfl
            exact hss (congrArg UdpEntry.session hentry)
          linked := fun s' r' t' hs' ht' => by
            obtain ⟨-, t₀, ht₀, hvalues⟩ := htable _ t' ht'
            have hs₀ := hends.session s' r' hs'
            obtain ⟨e', hdriver', hentry', he'⟩ := h.linked s' r' t₀ hs₀ ht₀
            refine ⟨e', hdriver', hentry', ?_⟩
            rw [hvalues, if_neg]
            · exact he'
            · rintro ⟨hacceptor, hhost, hport⟩
              obtain rfl := h.eq_of_endpoint hs hs₀ ht hacceptor hhost hport
              exact nomatch (Function.update_self s' none st.session).symm.trans hs'
          unlinked := fun s' r' hs' ht' => by
            refine h.unlinked s' r' (hends.session s' r' hs') ?_
            cases ht₀ : st.eptable r'.acceptor with
            | none => rfl
            | some t₀ =>
              obtain ⟨t', ht'', -⟩ := hends.table _ t₀ ht₀
              exact nomatch ht''.symm.trans ht'
          fresh := fun a ha => by
            refine (Function.update_of_ne ?_ ..).trans (h.fresh a ha)
            rintro rfl
            exact absurd (h.known s r hs) (Nat.not_lt.mpr ha)
          known := fun s' r' hs' => h.known s' r' (hends.session s' r' hs') }

theorem Linked.endAll (h : Linked st) (ended : List Nat) :
    Linked (Udp.endAll st ended) ∧ EndsOnly st (Udp.endAll st ended) := by
  unfold Udp.endAll
  induction ended generalizing st with
  | nil => exact ⟨h, .refl st⟩
  | cons s ended ih =>
    obtain ⟨hlinked, hends⟩ := ih (h.sessionEnd s)
    exact ⟨hlinked, (sessionEnd_endsOnly h s).trans hends⟩

theorem Linked.udpprocess (h : Linked st) (s : Nat) (p : Processing) :
    Linked (Udp.udpprocess st s p) ∧ EndsOnly st (Udp.udpprocess st s p) := by
  obtain ⟨hlinked, hends⟩ := h.endAll p.ended
  unfold Udp.udpprocess
  simp only
  split
  · exact ⟨hlinked.sessionEnd s, hends.trans (sessionEnd_endsOnly hlinked s)⟩
  · exact ⟨hlinked, hends⟩

/-! ## The begin of a session -/

/-- A session that is started at an endpoint without one is linked with its new entry. -/
theorem Linked.start (h : Linked st) (ht : st.eptable a = some t) (fd : Int)
    {host : CString} {port : BitVec 16} {e : Nat} (hs : st.session s = none)
    (he : st.allocated e = false) (hnil : t.values getHashkey host port = []) :
    Linked { st with
      eptable := Function.update st.eptable a (some (t.append getHashkey host port e))
      udpentry := Function.update st.udpentry e ⟨s, a⟩
      allocated := Function.update st.allocated e true
      session := Function.update st.session s (some ⟨a, fd, host, port, ⟨some e⟩⟩) } := by
  have hwf := h.wellFormed a t ht
  have htable := h.table_update ht (hwf.append host port e)
    (fun host' port' => EpHashTable.append_values host port e host' port')
  rw [hnil] at htable
  -- the other sessions and their entries are where they were
  have hentry : ∀ e', st.allocated e' = true → e' ≠ e := by
    rintro e' he' rfl
    exact absurd (he.symm.trans he') Bool.false_ne_true
  have hsession : ∀ s' r', st.session s' = some r' → s' ≠ s := by
    rintro s' r' hs' rfl
    exact nomatch hs.symm.trans hs'
  have hcases : ∀ s' r', Function.update st.session s (some ⟨a, fd, host, port, ⟨some e⟩⟩) s' =
      some r' → (s' = s ∧ r' = ⟨a, fd, host, port, ⟨some e⟩⟩) ∨ st.session s' = some r' := by
    intro s' r' hs'
    rcases update_eq_some hs' with ⟨hss, heq⟩ | ⟨-, hs₀⟩
    · exact .inl ⟨hss, (Option.some.inj heq).symm⟩
    · exact .inr hs₀
  have hacceptor : a < st.acceptors := by
    refine Nat.lt_of_not_le fun ha => ?_
    exact nomatch ht.symm.trans (h.fresh a ha)
  exact
    { wellFormed := fun a' t' ht' => (htable a' t' ht').1
      single := fun a' t' ht' host' port' => by
        obtain ⟨-, t₀, ht₀, hvalues⟩ := htable a' t' ht'
        rw [hvalues]
        split
        · exact Nat.le_refl 1
        · exact h.single a' t₀ ht₀ host' port'
      entry := fun a' t' ht' host' port' e' he' => by
        obtain ⟨-, t₀, ht₀, hvalues⟩ := htable a' t' ht'
        rw [hvalues] at he'
        split at he'
        · rename_i heq
          obtain ⟨rfl, rfl, rfl⟩ := heq
          obtain rfl := List.mem_singleton.mp he'
          simp only [Function.update_self]
          exact ⟨trivial, trivial, _, rfl, rfl, rfl, rfl, rfl⟩
        · obtain ⟨hallocated, hhash, r', hs', hrest⟩ := h.entry a' t₀ ht₀ host' port' e' he'
          have hne := hentry e' hallocated
          simp only [Function.update_of_ne hne]
          refine ⟨hallocated, hhash, r', ?_, hrest⟩
          exact (Function.update_of_ne (hsession _ r' hs') ..).trans hs'
      linked := fun s' r' t' hs' ht' => by
        obtain ⟨-, t₀, ht₀, hvalues⟩ := htable _ t' ht'
        rcases hcases s' r' hs' with ⟨rfl, rfl⟩ | hs₀
        · refine ⟨e, rfl, Function.update_self .., ?_⟩
          rw [hvalues, if_pos ⟨rfl, rfl, rfl⟩]
          exact List.mem_singleton_self e
        · obtain ⟨e', hdriver', hentry', he'⟩ := h.linked s' r' t₀ hs₀ ht₀
          have hne := hentry e' (h.entry _ t₀ ht₀ _ _ e' he').1
          refine ⟨e', hdriver', (Function.update_of_ne hne ..).trans hentry', ?_⟩
          rw [hvalues, if_neg]
          · exact he'
          · rintro ⟨ha, hhost, hport⟩
            obtain rfl : t = t₀ := Option.some.inj (ht.symm.trans (ha ▸ ht₀))
            rw [hhost, hport, hnil] at he'
            exact absurd he' List.not_mem_nil
      unlinked := fun s' r' hs' ht' => by
        have hne : r'.acceptor ≠ a := by
          rintro rfl
          exact nomatch ht'.symm.trans (Function.update_self ..)
        rcases hcases s' r' hs' with ⟨-, rfl⟩ | hs₀
        · exact absurd rfl hne
        · exact h.unlinked s' r' hs₀ ((Function.update_of_ne hne ..).symm.trans ht')
      fresh := fun a' ha' =>
        (Function.update_of_ne (Nat.ne_of_gt (Nat.lt_of_lt_of_le hacceptor ha')) ..).trans
          (h.fresh a' ha')
      known := fun s' r' hs' => by
        rcases hcases s' r' hs' with ⟨-, rfl⟩ | hs₀
        · exact hacceptor
        · exact h.known s' r' hs₀ }

/-- `_assign_direct` keeps the sessions linked, whichever way it leaves, and it goes on running
where nobody stops the layer. -/
theorem Linked.assignDirect (h : Linked st) (ht : st.eptable a = some t) {fd : Int}
    {host : CString} {port : BitVec 16} {answers : Answers}
    (hnil : t.values getHashkey host port = []) {st' : Layer} {rc : Int}
    (hassign : Udp.assignDirect st a fd host port answers = some (st', rc)) :
    Linked st' ∧ (answers.stops = false → st'.running = st.running) := by
  unfold Udp.assignDirect at hassign
  split at hassign
  · obtain ⟨rfl, -⟩ := Prod.mk.inj (Option.some.inj hassign)
    exact ⟨h, fun _ => rfl⟩
  rename_i s _
  split at hassign
  · exact nomatch hassign
  rename_i hsome
  obtain ⟨hlinked, hends⟩ := h.endAll answers.accepting
  have hlinked' : Linked { Udp.endAll st answers.accepting with
      running := st.running && !answers.stops } := { hlinked with }
  have hrunning : answers.stops = false → (st.running && !answers.stops) = st.running := by
    intro hstops
    rw [hstops, Bool.not_false, Bool.and_true]
  simp only at hassign
  split at hassign
  · obtain ⟨rfl, -⟩ := Prod.mk.inj (Option.some.inj hassign)
    exact ⟨hlinked', hrunning⟩
  split at hassign
  · obtain ⟨rfl, -⟩ := Prod.mk.inj (Option.some.inj hassign)
    exact ⟨hlinked', hrunning⟩
  split at hassign
  · exact nomatch hassign
  rename_i hallocated
  split at hassign
  · exact nomatch hassign
  rename_i t' ht'
  -- while the callback was running the endpoint did not get an entry
  have hnil' : t'.values getHashkey host port = [] := by
    obtain ⟨t'', ht'', hkeep⟩ := hends.table a t ht
    obtain rfl : t' = t'' := Option.some.inj (ht'.symm.trans ht'')
    exact hkeep host port hnil
  have hs : (Udp.endAll st answers.accepting).session s = none := by
    refine Option.eq_none_iff_forall_ne_some.mpr fun r hr => hsome ?_
    rw [hends.session s r hr]
    rfl
  have hstarted := hlinked'.start ht' fd hs (Bool.eq_false_iff.mpr hallocated)
    hnil'
  obtain ⟨hstarting, hkept⟩ := hstarted.endAll answers.starting
  split at hassign
  · obtain ⟨rfl, -⟩ := Prod.mk.inj (Option.some.inj hassign)
    obtain ⟨hprocessed, hkept'⟩ := hstarting.udpprocess s answers.process
    exact ⟨hprocessed, fun hstops => (hkept.trans hkept').running.trans (hrunning hstops)⟩
  · obtain ⟨rfl, -⟩ := Prod.mk.inj (Option.some.inj hassign)
    exact ⟨hstarting, fun hstops => hkept.running.trans (hrunning hstops)⟩

/-! ## The acceptors -/

theorem Linked.listen (h : Linked st) : Linked (Udp.listen st) := by
  -- the new table is empty, and its acceptor has no session yet
  have htable : ∀ a t, Function.update st.eptable st.acceptors (some (EpHashTable.create 8192)) a =
      some t → (a = st.acceptors ∧ t = EpHashTable.create 8192) ∨ st.eptable a = some t := by
    intro a t ht
    rcases update_eq_some ht with ⟨ha, heq⟩ | ⟨-, ht₀⟩
    · exact .inl ⟨ha, (Option.some.inj heq).symm⟩
    · exact .inr ht₀
  exact
    { wellFormed := fun a t ht => by
        rcases htable a t ht with ⟨-, rfl⟩ | ht
        · exact EpHashTable.create_wellFormed (by decide)
        · exact h.wellFormed a t ht
      single := fun a t ht host port => by
        rcases htable a t ht with ⟨-, rfl⟩ | ht
        · exact Nat.zero_le 1
        · exact h.single a t ht host port
      entry := fun a t ht host port e he => by
        rcases htable a t ht with ⟨-, rfl⟩ | ht
        · exact absurd he List.not_mem_nil
        · exact h.entry a t ht host port e he
      linked := fun s r t hs ht => by
        rcases htable r.acceptor t ht with ⟨ha, -⟩ | ht
        · exact absurd ha (Nat.ne_of_lt (h.known s r hs))
        · exact h.linked s r t hs ht
      unlinked := fun s r hs ht =>
        h.unlinked s r hs ((Function.update_of_ne (Nat.ne_of_lt (h.known s r hs)) ..).symm.trans ht)
      fresh := fun a ha => (Function.update_of_ne (Nat.ne_of_gt ha) ..).trans
        (h.fresh a (Nat.le_of_succ_le ha))
      known := fun s r hs => Nat.lt_succ_of_lt (h.known s r hs) }

/-- `ephashtable_destroy` visits entries: their memory is freed, and the drivers of their
sessions lose them. -/
private theorem foldl_cutOff (entries : List Endpoint) (st : Layer) :
    ∃ session allocated,
      entries.foldl cutOff st = { st with session := session, allocated := allocated } ∧
      (∀ e ∈ entries, session (st.udpentry e.value).session =
        (st.session (st.udpentry e.value).session).map fun r => { r with driver := ⟨none⟩ }) ∧
      (∀ s, (∀ e ∈ entries, (st.udpentry e.value).session ≠ s) → session s = st.session s) ∧
      ∀ v, (∀ e ∈ entries, e.value ≠ v) → allocated v = st.allocated v := by
  induction entries generalizing st with
  | nil =>
    exact ⟨st.session, st.allocated, rfl, fun _ he => absurd he List.not_mem_nil, fun _ _ => rfl,
      fun _ _ => rfl⟩
  | cons e entries ih =>
    obtain ⟨session, allocated, heq, hcut, hkeep, hallocated⟩ := ih (cutOff st e)
    refine ⟨session, allocated, heq, fun e' he' => ?_, fun s hs => ?_, fun v hv => ?_⟩
    · by_cases hlater : ∃ e'' ∈ entries, (st.udpentry e''.value).session =
        (st.udpentry e'.value).session
      · obtain ⟨e'', he'', hs⟩ := hlater
        have hcut'' := hcut e'' he''
        change session (st.udpentry e''.value).session =
          (Function.update st.session _ _ (st.udpentry e''.value).session).map _ at hcut''
        rw [← hs, hcut'']
        by_cases hfirst : (st.udpentry e''.value).session = (st.udpentry e.value).session
        · -- a session that is visited twice
          rw [hfirst, Function.update_self, Option.map_map]
          rfl
        · rw [Function.update_of_ne hfirst]
      · rcases List.mem_cons.mp he' with rfl | he'
        · rw [hkeep _ fun e'' he'' hs => hlater ⟨e'', he'', hs⟩]
          exact Function.update_self ..
        · exact absurd ⟨e', he', rfl⟩ hlater
    · rw [hkeep s fun e' he' => hs e' (List.mem_cons_of_mem e he')]
      exact Function.update_of_ne (hs e List.mem_cons_self).symm ..
    · rw [hallocated v fun e' he' => hv e' (List.mem_cons_of_mem e he')]
      exact Function.update_of_ne (hv e List.mem_cons_self).symm ..

theorem freeAcceptor_running (st : Layer) (a : Nat) :
    (Udp.freeAcceptor st a).running = st.running := by
  unfold Udp.freeAcceptor
  split
  · rfl
  · rename_i t _
    obtain ⟨session, allocated, heq, -⟩ := foldl_cutOff t.entries st
    simp only [heq]

/-- The sessions of an acceptor that is freed lose their entries; the others are as before. -/
theorem Linked.freeAcceptor (h : Linked st) (a : Nat) : Linked (Udp.freeAcceptor st a) := by
  unfold Udp.freeAcceptor
  split
  · exact h
  rename_i t ht
  obtain ⟨session, allocated, heq, hvisited, hmissed, hallocated⟩ := foldl_cutOff t.entries st
  simp only [heq]
  have hwf := h.wellFormed a t ht
  -- the entries of the table are those of the sessions of the acceptor
  have hcut : ∀ e ∈ t.entries, (st.udpentry e.value).hashtable = a ∧
      ∃ r, st.session (st.udpentry e.value).session = some r ∧ r.acceptor = a := by
    intro e he
    obtain ⟨-, hhash, r, hs, hacceptor, -⟩ := h.entry a t ht _ _ _ (hwf.mem_entries.mp he)
    exact ⟨hhash, r, hs, hacceptor⟩
  have hkeep : ∀ s r, st.session s = some r → r.acceptor ≠ a → session s = some r := by
    intro s r hs hne
    rw [hmissed s, hs]
    rintro e he rfl
    obtain ⟨-, r', hs', hacceptor⟩ := hcut e he
    obtain rfl : r = r' := Option.some.inj (hs.symm.trans hs')
    exact hne hacceptor
  -- a live session was live before, with the same acceptor
  have hlive : ∀ s r, session s = some r → ∃ r₀, st.session s = some r₀ ∧
      r₀.acceptor = r.acceptor ∧ (r₀.driver = ⟨none⟩ → r.driver = ⟨none⟩) ∧
        (r.acceptor ≠ a → r₀ = r) := by
    intro s r hs
    by_cases hvisit : ∃ e ∈ t.entries, (st.udpentry e.value).session = s
    · obtain ⟨e, he, rfl⟩ := hvisit
      obtain ⟨r₀, hs₀, rfl⟩ := Option.map_eq_some_iff.mp ((hvisited e he).symm.trans hs)
      refine ⟨r₀, hs₀, rfl, fun _ => rfl, fun hne => ?_⟩
      exact Option.some.inj ((hkeep _ r₀ hs₀ hne).symm.trans hs)
    · have hs₀ := hmissed s fun e he hse => hvisit ⟨e, he, hse⟩
      exact ⟨r, hs₀.symm.trans hs, rfl, id, fun _ => rfl⟩
  have htable : ∀ a' t', Function.update st.eptable a none a' = some t' →
      a' ≠ a ∧ st.eptable a' = some t' :=
    fun a' t' ht' => of_update_none ht'
  exact
    { wellFormed := fun a' t' ht' => h.wellFormed a' t' (htable a' t' ht').2
      single := fun a' t' ht' => h.single a' t' (htable a' t' ht').2
      entry := fun a' t' ht' host port e he => by
        obtain ⟨hne, ht₀⟩ := htable a' t' ht'
        obtain ⟨hused, hhash, r, hs, hacceptor, hrest⟩ := h.entry a' t' ht₀ host port e he
        refine ⟨(hallocated e fun e' he' hv => ?_).trans hused, hhash, r, ?_, hacceptor, hrest⟩
        · exact hne (hhash.symm.trans (hv ▸ (hcut e' he').1))
        · exact hkeep _ r hs (hacceptor ▸ hne)
      linked := fun s r t' hs ht' => by
        obtain ⟨hne, ht₀⟩ := htable _ t' ht'
        obtain ⟨r₀, hs₀, -, -, hsame⟩ := hlive s r hs
        obtain rfl := hsame hne
        exact h.linked s r₀ t' hs₀ ht₀
      unlinked := fun s r hs ht' => by
        obtain ⟨r₀, hs₀, hacceptor, hnone, -⟩ := hlive s r hs
        by_cases ha : r.acceptor = a
        · -- the session was visited with its entry
          obtain ⟨e, -, hentry, he⟩ := h.linked s r₀ t hs₀ ((hacceptor.trans ha) ▸ ht)
          have hmem : (⟨r₀.port, r₀.host, e⟩ : Endpoint) ∈ t.entries := hwf.mem_entries.mpr he
          have hnone := hvisited _ hmem
          rw [show (st.udpentry e).session = s from congrArg UdpEntry.session hentry, hs₀] at hnone
          exact Option.some.inj (hnone.symm.trans hs) ▸ rfl
        · refine hnone (h.unlinked s r₀ hs₀ ?_)
          rw [hacceptor]
          exact (Function.update_of_ne ha ..).symm.trans ht'
      fresh := fun a' ha' => by
        by_cases ha : a' = a
        · exact ha ▸ Function.update_self ..
        · exact (Function.update_of_ne ha ..).trans (h.fresh a' ha')
      known := fun s r hs => by
        obtain ⟨r₀, hs₀, hacceptor, -⟩ := hlive s r hs
        exact hacceptor ▸ h.known s r₀ hs₀ }

/-! ## Runs -/

/-- A datagram from the endpoint of a live session goes to this session, and ends sessions
at most. -/
theorem Linked.udpread_live (h : Linked st) (hrunning : st.running = true)
    (hs : st.session s = some r) (ht : st.eptable r.acceptor = some t) (fd : Int)
    (answers : Answers) :
    ∃ st', Udp.udpread st r.acceptor fd r.host r.port answers = some (st', .processed s) ∧
      Linked st' ∧ EndsOnly st st' := by
  obtain ⟨e, hfind, hsession⟩ := h.find_eq hs ht
  obtain ⟨hlinked, hends⟩ := h.udpprocess s answers.process
  refine ⟨_, ?_, hlinked, hends⟩
  simp only [Udp.udpread, ht, hrunning, hfind, hsession, Bool.not_true, Bool.false_eq_true,
    if_false]

/-- `channel_on_udpread` keeps the sessions linked, also where it starts one. -/
theorem Linked.udpread (h : Linked st) {fd : Int} {host : CString} {port : BitVec 16}
    {answers : Answers} {st' : Layer} {o : Outcome}
    (hread : Udp.udpread st a fd host port answers = some (st', o)) :
    Linked st' ∧ (answers.stops = false → st'.running = st.running) := by
  unfold Udp.udpread at hread
  split at hread
  · exact nomatch hread
  rename_i t ht
  split at hread
  · obtain ⟨rfl, -⟩ := Prod.mk.inj (Option.some.inj hread)
    exact ⟨h, fun _ => rfl⟩
  split at hread
  · rename_i e hfind
    obtain ⟨rfl, -⟩ := Prod.mk.inj (Option.some.inj hread)
    obtain ⟨hprocessed, hkept⟩ := h.udpprocess (st.udpentry e).session answers.process
    exact ⟨hprocessed, fun _ => hkept.running⟩
  · rename_i hfind
    rw [(h.wellFormed a t ht).find_eq, List.head?_eq_none_iff] at hfind
    obtain ⟨⟨st'', rc⟩, hassign, heq⟩ := Option.map_eq_some_iff.mp hread
    obtain ⟨rfl, -⟩ := Prod.mk.inj heq
    exact h.assignDirect ht hfind hassign

/-- One step, whatever comes in. -/
theorem Linked.step (h : Linked st) {i : Input} {st' : Layer} (hstep : Udp.step st i = some st') :
    Linked st' ∧ (i.Stops = false → st'.running = st.running) := by
  cases i with
  | listen =>
    obtain rfl := Option.some.inj hstep
    exact ⟨h.listen, fun _ => rfl⟩
  | datagram acceptor fd host port answers =>
    obtain ⟨⟨st'', o⟩, hread, rfl⟩ := Option.map_eq_some_iff.mp hstep
    exact h.udpread hread
  | terminate s =>
    obtain rfl := Option.some.inj hstep
    exact ⟨h.sessionEnd s, fun _ => (sessionEnd_endsOnly h s).running⟩
  | stop =>
    obtain rfl := Option.some.inj hstep
    exact ⟨{ h with }, fun hstops => absurd hstops Bool.noConfusion⟩
  | freeAcceptor acceptor =>
    obtain rfl := Option.some.inj hstep
    exact ⟨h.freeAcceptor acceptor, fun _ => freeAcceptor_running st acceptor⟩

/-- Every state that a layer can reach is linked. -/
theorem linked_of_run {inputs : List Input} (hrun : Run step initial inputs st) : Linked st :=
  hrun.invariant linked_initial fun _ _ _ h _ hstep => (h.step hstep).1

/-- A layer that nobody stops goes on running. -/
theorem running_of_run {inputs : List Input} (hrun : Run step initial inputs st)
    (hstops : ∀ i ∈ inputs, i.Stops = false) : st.running = true := by
  induction hrun with
  | nil => rfl
  | snoc hrun _ hstep ih =>
    have hkept := ((linked_of_run hrun).step hstep).2
      (hstops _ (List.mem_append_right _ (List.mem_singleton_self _)))
    exact hkept.trans (ih fun i hi => hstops i (List.mem_append_left _ hi))

/-! ## The table and its sessions -/

/-- The sessions of the entries of a table, in the order of the table. -/
def owners (st : Layer) (t : EpHashTable) : List Nat :=
  t.entries.map fun e => (st.udpentry e.value).session

/-- The table of an acceptor has exactly one entry for each of its live sessions; the key is
the endpoint of the session, and the two point to each other. -/
structure OneEntryPerSession (st : Layer) (a : Nat) (t : EpHashTable) : Prop where
  nodup : (owners st t).Nodup
  live : ∀ s, s ∈ owners st t ↔ ∃ r, st.session s = some r ∧ r.acceptor = a
  links : ∀ e ∈ t.entries, ∃ r, st.session (st.udpentry e.value).session = some r ∧
    r.acceptor = a ∧ e.host = r.host ∧ e.port = r.port ∧ r.driver.entry = some e.value
  /-- A lookup finds nothing exactly if the endpoint has no live session. -/
  lookup : ∀ host port, t.find getHashkey host port = none ↔
    ∀ s r, st.session s = some r → r.acceptor = a → ¬ (r.host = host ∧ r.port = port)

/-- Where a session owns two entries of a table they are the same. -/
private theorem Linked.eq_of_owner (h : Linked st) (ht : st.eptable a = some t) {e e' : Endpoint}
    (he : e ∈ t.entries) (he' : e' ∈ t.entries)
    (howner : (st.udpentry e.value).session = (st.udpentry e'.value).session) : e = e' := by
  have hwf := h.wellFormed a t ht
  obtain ⟨-, -, r, hs, -, hhost, hport, hdriver⟩ := h.entry a t ht _ _ _ (hwf.mem_entries.mp he)
  obtain ⟨-, -, r', hs', -, hhost', hport', hdriver'⟩ :=
    h.entry a t ht _ _ _ (hwf.mem_entries.mp he')
  obtain rfl : r = r' := Option.some.inj (hs.symm.trans (howner ▸ hs'))
  have hvalue := Option.some.inj (Driver.mk.inj (hdriver.symm.trans hdriver'))
  cases e
  cases e'
  simp only at hhost hport hhost' hport' hvalue
  rw [← hhost, ← hport, ← hhost', ← hport', hvalue]

/-- `linked` says it from the side of the sessions, `entry` from the side of the entries. -/
theorem Linked.oneEntryPerSession (h : Linked st) (ht : st.eptable a = some t) :
    OneEntryPerSession st a t where
  nodup := List.Nodup.map_on (fun _ he _ he' => h.eq_of_owner ht he he')
    ((h.wellFormed a t ht).nodup_entries (h.single a t ht))
  live s := by
    have hwf := h.wellFormed a t ht
    constructor
    · intro hs
      obtain ⟨e, he, rfl⟩ := List.mem_map.mp hs
      obtain ⟨-, -, r, hs, hacceptor, -⟩ := h.entry a t ht _ _ _ (hwf.mem_entries.mp he)
      exact ⟨r, hs, hacceptor⟩
    · rintro ⟨r, hs, rfl⟩
      -- the driver of the session points to its entry
      obtain ⟨e, -, hentry, he⟩ := h.linked s r t hs ht
      refine List.mem_map.mpr ⟨⟨r.port, r.host, e⟩, hwf.mem_entries.mpr he, ?_⟩
      exact congrArg UdpEntry.session hentry
  links e he := by
    obtain ⟨-, -, r, hs, hacceptor, hhost, hport, hdriver⟩ :=
      h.entry a t ht _ _ _ ((h.wellFormed a t ht).mem_entries.mp he)
    exact ⟨r, hs, hacceptor, hhost.symm, hport.symm, congrArg Driver.entry hdriver⟩
  lookup host port := by
    rw [(h.wellFormed a t ht).find_eq, List.head?_eq_none_iff]
    constructor
    · rintro hnil s r hs rfl ⟨rfl, rfl⟩
      obtain ⟨e, -, -, he⟩ := h.linked s r t hs ht
      rw [hnil] at he
      exact absurd he List.not_mem_nil
    · intro hnone
      refine List.eq_nil_iff_forall_not_mem.mpr fun e he => ?_
      obtain ⟨-, -, r, hs, hacceptor, hhost, hport, -⟩ := h.entry a t ht host port e he
      exact hnone _ r hs hacceptor ⟨hhost, hport⟩

/-- After a session has ended, a lookup of its endpoint finds nothing. -/
theorem Linked.find_sessionEnd (h : Linked st) (hs : st.session s = some r)
    (ht : st.eptable r.acceptor = some t) :
    ∃ t', (Udp.sessionEnd st s).eptable r.acceptor = some t' ∧
      t'.find getHashkey r.host r.port = none := by
  have hends := sessionEnd_endsOnly h s
  obtain ⟨t', ht', -⟩ := hends.table _ t ht
  refine ⟨t', ht', (((h.sessionEnd s).oneEntryPerSession ht').lookup _ _).mpr ?_⟩
  rintro s' r' hs' hacceptor ⟨hhost, hport⟩
  -- the only session there was is the one that has ended
  obtain rfl := h.eq_of_endpoint hs (hends.session s' r' hs') ht hacceptor hhost hport
  simp only [Udp.sessionEnd, hs, Function.update_self] at hs'
  exact nomatch hs'

/-- In every run, whatever the callbacks and the allocator answer, the table of an acceptor has
exactly one entry for each of its live sessions. So a datagram from the endpoint of a live
session reaches this session and starts none, and after the session has ended the endpoint is
not found any more. -/
theorem endpoints_of_run {inputs : List Input} (hrun : Run step initial inputs st) :
    ((∀ i ∈ inputs, i.Stops = false) → st.running = true) ∧
    ∀ a t, st.eptable a = some t →
      OneEntryPerSession st a t ∧
      ∀ s r, st.session s = some r → r.acceptor = a →
        (st.running = true → ∀ fd answers, ∃ st',
          udpread st a fd r.host r.port answers = some (st', .processed s) ∧
          ∀ s' r', st'.session s' = some r' → st.session s' = some r') ∧
        ∃ t', (sessionEnd st s).eptable a = some t' ∧ t'.find getHashkey r.host r.port = none := by
  have h := linked_of_run hrun
  refine ⟨running_of_run hrun, fun a t ht => ⟨h.oneEntryPerSession ht, ?_⟩⟩
  rintro s r hs rfl
  refine ⟨fun hrunning fd answers => ?_, h.find_sessionEnd hs ht⟩
  obtain ⟨st', hread, -, hends⟩ := h.udpread_live hrunning hs ht fd answers
  exact ⟨st', hread, hends.session⟩

/-- A datagram from `127.0.0.1::9000` starts the session at 7, with its entry at 3. -/
theorem endpoints_of_run_first : ∃ st t,
    Run step initial
      [.listen, .datagram 0 5 [0x31, 0x32, 0x37, 0x2e, 0x30, 0x2e, 0x30, 0x2e, 0x31] 9000
        ⟨some 7, 0, [], false, true, 3, [], ⟨[], false⟩⟩] st ∧
    st.eptable 0 = some t ∧ (st.session 7).isSome = true ∧ OneEntryPerSession st 0 t := by
  have hexec : exec step initial
      [.listen, .datagram 0 5 [0x31, 0x32, 0x37, 0x2e, 0x30, 0x2e, 0x30, 0x2e, 0x31] 9000
        ⟨some 7, 0, [], false, true, 3, [], ⟨[], false⟩⟩] = some _ := rfl
  have hrun := run_iff_exec.mpr hexec
  exact ⟨_, _, hrun, rfl, rfl, ((endpoints_of_run hrun).2 0 _ rfl).1⟩

end Udp

end Evlite
