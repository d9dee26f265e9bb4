import Mathlib.Data.List.Induction
import Mathlib.Data.Set.Insert
import Mathlib.Logic.Relation

/-!
# Selective Repeat over an Unreliable Network

One direction of a sliding-window protocol, with numbers that never wrap around. The sender
numbers what it sends, keeps it until it is acknowledged and may send it again at any time. The
receiver holds what arrives out of order, delivers in order, and acknowledges what it has: one
by one, or everything below a number. The network is a set that only grows: what is in it may
arrive at any time, any number of times, in any order, or never.

## Main results

- `Steps.sound`: in every run, what is delivered is a beginning of what was sent
  (`delivered_sent`), and what the sender has not kept has arrived (`kept_or_received`).
- `Steps.numberAll`, `Steps.postAll`, `Steps.deliverAll`: what takes several steps.
-/

namespace Evlite.Lib.SlidingWindow

variable {α : Type*}

/-- What is on the network. -/
inductive Letter (α : Type*) where
  | data (n : ℕ) (a : α)
  | ack (n : ℕ)
  /-- Everything below `u` has arrived. -/
  | una (u : ℕ)

/-- A transfer in one direction. -/
structure Transfer (α : Type*) where
  /-- What was numbered, number `n` at position `n`. -/
  sent : List α := []
  /-- The numbers that the sender keeps. -/
  kept : Set ℕ := ∅
  delivered : List α := []
  /-- What the receiver holds out of order. -/
  held : ℕ → Option α := fun _ => none
  net : Set (Letter α) := ∅

namespace Transfer

/-- Number `n` has arrived. -/
def Received (t : Transfer α) (n : ℕ) : Prop := n < t.delivered.length ∨ (t.held n).isSome

end Transfer

/-- What the two parties can do. -/
inductive Step : Transfer α → Transfer α → Prop where
  | number (t : Transfer α) (a : α) :
      Step t { t with sent := t.sent ++ [a], kept := insert t.sent.length t.kept }
  | transmit (t : Transfer α) {n : ℕ} {a : α} (hkept : n ∈ t.kept) (hsent : t.sent[n]? = some a) :
      Step t { t with net := insert (.data n a) t.net }
  | hold (t : Transfer α) {n : ℕ} {a : α} (harrives : .data n a ∈ t.net)
      (hnew : t.delivered.length ≤ n) :
      Step t { t with held := Function.update t.held n (some a) }
  | deliver (t : Transfer α) {a : α} (hnext : t.held t.delivered.length = some a) :
      Step t
        { t with
          delivered := t.delivered ++ [a], held := Function.update t.held t.delivered.length none }
  | ack (t : Transfer α) {n : ℕ} (hreceived : t.Received n) :
      Step t { t with net := insert (.ack n) t.net }
  | una (t : Transfer α) {u : ℕ} (hdelivered : u ≤ t.delivered.length) :
      Step t { t with net := insert (.una u) t.net }
  | release (t : Transfer α) {n : ℕ} (harrives : .ack n ∈ t.net) :
      Step t { t with kept := t.kept \ {n} }
  | releaseBelow (t : Transfer α) {u : ℕ} (harrives : .una u ∈ t.net) :
      Step t { t with kept := t.kept \ {n | n < u} }

/-- Any number of steps. -/
abbrev Steps : Transfer α → Transfer α → Prop := Relation.ReflTransGen Step

/-! ## The invariant -/

/-- Everything that is somewhere was sent under its number, and what is acknowledged or no
longer kept has arrived. -/
structure Sound (t : Transfer α) : Prop where
  delivered_sent : t.delivered <+: t.sent
  held_sent : ∀ {n a}, t.held n = some a → t.delivered.length ≤ n ∧ t.sent[n]? = some a
  data_sent : ∀ {n a}, .data n a ∈ t.net → t.sent[n]? = some a
  ack_received : ∀ {n}, .ack n ∈ t.net → t.Received n
  una_delivered : ∀ {u}, .una u ∈ t.net → u ≤ t.delivered.length
  kept_or_received : ∀ {n}, n < t.sent.length → n ∈ t.kept ∨ t.Received n

theorem Sound.init : Sound ({} : Transfer α) where
  delivered_sent := List.prefix_rfl
  held_sent h := by simp at h
  data_sent h := absurd h (Set.notMem_empty _)
  ack_received h := absurd h (Set.notMem_empty _)
  una_delivered h := absurd h (Set.notMem_empty _)
  kept_or_received h := absurd h (Nat.not_lt_zero _)

/-- What arrived stays arrived. -/
theorem Step.received {t t' : Transfer α} (h : Step t t') {n : ℕ} (hn : t.Received n) :
    t'.Received n := by
  cases h with
  | hold harrives hnew =>
    rename_i m a
    apply hn.imp_right
    intro hheld
    by_cases heq : n = m
    · simp [heq]
    · dsimp only
      rwa [Function.update_of_ne heq]
  | deliver hnext =>
    unfold Transfer.Received at hn ⊢
    rw [List.length_append, List.length_singleton]
    rcases hn with hlt | hheld
    · left
      omega
    · by_cases heq : n = t.delivered.length
      · left
        omega
      · right
        dsimp only
        rwa [Function.update_of_ne heq]
  | number a => exact hn
  | transmit hkept hsent => exact hn
  | ack hreceived => exact hn
  | una hdelivered => exact hn
  | release harrives => exact hn
  | releaseBelow harrives => exact hn

theorem Sound.step {t t' : Transfer α} (ht : Sound t) (h : Step t t') : Sound t' := by
  have hkeep : ∀ {n : ℕ}, t.Received n → t'.Received n := fun hn => h.received hn
  cases h with
  | number a =>
    have hold : ∀ {n : ℕ} {b : α}, t.sent[n]? = some b → (t.sent ++ [a])[n]? = some b := by
      intro n b hn
      exact (List.getElem?_append_left (List.getElem?_eq_some_iff.mp hn).1).trans hn
    refine
      { delivered_sent := ht.delivered_sent.trans (List.prefix_append _ _)
        held_sent := fun hn => (ht.held_sent hn).imp_right hold
        data_sent := fun hn => hold (ht.data_sent hn)
        ack_received := ht.ack_received
        una_delivered := ht.una_delivered
        kept_or_received := ?_ }
    intro n hn
    rw [List.length_append, List.length_singleton] at hn
    rcases Nat.lt_or_eq_of_le (Nat.lt_succ_iff.mp hn) with hlt | heq
    · exact (ht.kept_or_received hlt).imp_left (Set.mem_insert_of_mem _)
    · exact .inl (heq ▸ Set.mem_insert _ _)
  | transmit hkept hsent =>
    refine { ht with data_sent := ?_, ack_received := ?_, una_delivered := ?_ }
    · intro n a hn
      rcases Set.mem_insert_iff.mp hn with heq | hn
      · cases heq
        exact hsent
      · exact ht.data_sent hn
    · intro n hn
      exact ht.ack_received (Set.mem_of_mem_insert_of_ne hn (by simp))
    · intro u hu
      exact ht.una_delivered (Set.mem_of_mem_insert_of_ne hu (by simp))
  | hold harrives hnew =>
    rename_i m a
    refine
      { ht with
        held_sent := ?_
        ack_received := fun hn => hkeep (ht.ack_received hn)
        kept_or_received := fun hn => (ht.kept_or_received hn).imp_right hkeep }
    intro n b hn
    dsimp only at hn
    by_cases heq : n = m
    · subst heq
      rw [Function.update_self] at hn
      cases hn
      exact ⟨hnew, ht.data_sent harrives⟩
    · rw [Function.update_of_ne heq] at hn
      exact ht.held_sent hn
  | deliver hnext =>
    rename_i a
    have hlength : (t.delivered ++ [a]).length = t.delivered.length + 1 := List.length_append
    refine
      { ht with
        delivered_sent := ?_
        held_sent := ?_
        ack_received := fun hn => hkeep (ht.ack_received hn)
        una_delivered := fun hu => Nat.le_trans (ht.una_delivered hu) (by rw [hlength]; omega)
        kept_or_received := fun hn => (ht.kept_or_received hn).imp_right hkeep }
    · -- what is held under the next number is what was sent under it
      obtain ⟨rest, hrest⟩ := ht.delivered_sent
      have hsent := (ht.held_sent hnext).2
      rw [← hrest, List.getElem?_append_right (Nat.le_refl _), Nat.sub_self] at hsent
      cases rest with
      | nil => simp at hsent
      | cons b rest =>
        cases hsent
        exact ⟨rest, by rw [← hrest, List.append_assoc, List.singleton_append]⟩
    · intro n b hn
      dsimp only at hn
      by_cases heq : n = t.delivered.length
      · rw [heq, Function.update_self] at hn
        cases hn
      · rw [Function.update_of_ne heq] at hn
        obtain ⟨hle, hsent⟩ := ht.held_sent hn
        exact ⟨by rw [hlength]; omega, hsent⟩
  | ack hreceived =>
    refine { ht with data_sent := ?_, ack_received := ?_, una_delivered := ?_ }
    · intro n a hn
      exact ht.data_sent (Set.mem_of_mem_insert_of_ne hn (by simp))
    · intro n hn
      rcases Set.mem_insert_iff.mp hn with heq | hn
      · cases heq
        exact hreceived
      · exact ht.ack_received hn
    · intro u hu
      exact ht.una_delivered (Set.mem_of_mem_insert_of_ne hu (by simp))
  | una hdelivered =>
    refine { ht with data_sent := ?_, ack_received := ?_, una_delivered := ?_ }
    · intro n a hn
      exact ht.data_sent (Set.mem_of_mem_insert_of_ne hn (by simp))
    · intro n hn
      exact ht.ack_received (Set.mem_of_mem_insert_of_ne hn (by simp))
    · intro u hu
      rcases Set.mem_insert_iff.mp hu with heq | hu
      · cases heq
        exact hdelivered
      · exact ht.una_delivered hu
  | release harrives =>
    rename_i m
    refine { ht with kept_or_received := ?_ }
    intro n hn
    by_cases heq : n = m
    · right
      rw [heq]
      exact ht.ack_received harrives
    · exact (ht.kept_or_received hn).imp_left fun hkept => ⟨hkept, heq⟩
  | releaseBelow harrives =>
    rename_i u
    refine { ht with kept_or_received := ?_ }
    intro n hn
    by_cases hlt : n < u
    · exact .inr (.inl (Nat.lt_of_lt_of_le hlt (ht.una_delivered harrives)))
    · exact (ht.kept_or_received hn).imp_left fun hkept => ⟨hkept, hlt⟩

theorem Steps.received {t t' : Transfer α} (h : Steps t t') {n : ℕ} (hn : t.Received n) :
    t'.Received n := by
  induction h with
  | refl => exact hn
  | tail _ hs ih => exact hs.received ih

/-- What is delivered is not taken back. -/
theorem Steps.delivered {t t' : Transfer α} (h : Steps t t') : t.delivered <+: t'.delivered := by
  induction h with
  | refl => exact List.prefix_rfl
  | tail _ hs ih =>
    cases hs with
    | deliver hnext => exact ih.trans (List.prefix_append _ _)
    | number a => exact ih
    | transmit hkept hsent => exact ih
    | hold harrives hnew => exact ih
    | ack hreceived => exact ih
    | una hdelivered => exact ih
    | release harrives => exact ih
    | releaseBelow harrives => exact ih

/-- The invariant of all runs. -/
theorem Steps.sound {t t' : Transfer α} (h : Steps t t') (ht : Sound t) : Sound t' := by
  induction h with
  | refl => exact ht
  | tail _ hs ih => exact ih.step hs

/-- What has arrived was sent. -/
theorem Sound.received_sent {t : Transfer α} (ht : Sound t) {n : ℕ} (hn : t.Received n) :
    n < t.sent.length := by
  rcases hn with hlt | hheld
  · exact Nat.lt_of_lt_of_le hlt ht.delivered_sent.length_le
  · obtain ⟨a, ha⟩ := Option.isSome_iff_exists.mp hheld
    exact (List.getElem?_eq_some_iff.mp (ht.held_sent ha).2).1

/-! ## Composite steps -/

/-- One after the other is numbered. -/
theorem Steps.numberAll (t : Transfer α) (as : List α) :
    Steps t
      { t with
        sent := t.sent ++ as
        kept := t.kept ∪ {n | t.sent.length ≤ n ∧ n < t.sent.length + as.length} } := by
  induction as generalizing t with
  | nil =>
    have hnone : {n | t.sent.length ≤ n ∧ n < t.sent.length + ([] : List α).length} = ∅ := by
      ext n
      simp
    rw [hnone, List.append_nil, Set.union_empty]
  | cons a as ih =>
    have hrest := ih { t with sent := t.sent ++ [a], kept := insert t.sent.length t.kept }
    have hkept : insert t.sent.length t.kept ∪
        {n | (t.sent ++ [a]).length ≤ n ∧ n < (t.sent ++ [a]).length + as.length} =
        t.kept ∪ {n | t.sent.length ≤ n ∧ n < t.sent.length + (a :: as).length} := by
      ext n
      simp only [Set.mem_union, Set.mem_insert_iff, Set.mem_ofPred_eq, List.length_append,
        List.length_nil, List.length_cons]
      constructor
      · rintro ((heq | hkept) | hnew)
        · right
          omega
        · exact .inl hkept
        · right
          omega
      · rintro (hkept | hnew)
        · exact .inl (.inr hkept)
        · by_cases heq : n = t.sent.length
          · exact .inl (.inl heq)
          · right
            omega
    dsimp only at hrest
    rw [hkept, List.append_assoc, List.singleton_append] at hrest
    exact .head (.number t a) hrest

/-- A letter that can be sent, whatever is on the network. -/
def Postable (t : Transfer α) (l : Letter α) : Prop :=
  ∀ net, Step { t with net := net } { t with net := insert l net }

/-- One letter after the other is sent. -/
theorem Steps.postAll {t : Transfer α} (ls : List (Letter α)) (h : ∀ l ∈ ls, Postable t l) :
    Steps t { t with net := t.net ∪ {l | l ∈ ls} } := by
  induction ls using List.reverseRecOn with
  | nil =>
    have hnone : {l : Letter α | l ∈ ([] : List (Letter α))} = ∅ := by
      ext l
      simp
    rw [hnone, Set.union_empty]
  | append_singleton ls l ih =>
    have hrest := ih fun k hk => h k (List.mem_append_left _ hk)
    have hnet : insert l (t.net ∪ {k | k ∈ ls}) = t.net ∪ {k | k ∈ ls ++ [l]} := by
      ext k
      simp only [Set.mem_insert_iff, Set.mem_union, Set.mem_ofPred_eq, List.mem_append,
        List.mem_singleton]
      rw [or_comm, or_assoc]
    have hlast := h l (List.mem_append_right _ List.mem_cons_self) (t.net ∪ {k | k ∈ ls})
    rw [hnet] at hlast
    exact hrest.tail hlast

theorem postable_data {t : Transfer α} {n : ℕ} {a : α} (hkept : n ∈ t.kept)
    (hsent : t.sent[n]? = some a) : Postable t (.data n a) :=
  fun net => .transmit { t with net := net } hkept hsent

theorem postable_ack {t : Transfer α} {n : ℕ} (hreceived : t.Received n) : Postable t (.ack n) :=
  fun net => .ack { t with net := net } hreceived

theorem postable_una {t : Transfer α} {u : ℕ} (hdelivered : u ≤ t.delivered.length) :
    Postable t (.una u) :=
  fun net => .una { t with net := net } hdelivered

/-- What is held one after the other is delivered. -/
theorem Steps.deliverAll {t : Transfer α} (as : List α)
    (h : ∀ i (hi : i < as.length), t.held (t.delivered.length + i) = some as[i]) :
    Steps t
      { t with
        delivered := t.delivered ++ as
        held := fun n =>
          if t.delivered.length ≤ n ∧ n < t.delivered.length + as.length then none else t.held n } := by
  induction as generalizing t with
  | nil =>
    have hheld : (fun n => if t.delivered.length ≤ n ∧ n < t.delivered.length + ([] : List α).length
        then none else t.held n) = t.held := by
      funext n
      rw [List.length_nil, if_neg (by omega)]
    rw [hheld, List.append_nil]
  | cons a as ih =>
    have hfirst : t.held t.delivered.length = some a := h 0 (Nat.succ_pos _)
    have hrest := @ih
      { t with
        delivered := t.delivered ++ [a], held := Function.update t.held t.delivered.length none } (by
      intro i hi
      have hnext := h (i + 1) (Nat.succ_lt_succ hi)
      dsimp only
      rw [List.length_append, List.length_singleton, Function.update_of_ne (by omega), Nat.add_assoc,
        Nat.add_comm 1]
      exact hnext)
    have hheld : (fun n => if (t.delivered ++ [a]).length ≤ n ∧
          n < (t.delivered ++ [a]).length + as.length then none
        else Function.update t.held t.delivered.length none n) =
        fun n => if t.delivered.length ≤ n ∧ n < t.delivered.length + (a :: as).length then none
          else t.held n := by
      funext n
      rw [List.length_append, List.length_singleton, List.length_cons]
      by_cases heq : n = t.delivered.length
      · rw [if_neg (by omega), if_pos (by omega), heq, Function.update_self]
      · rw [Function.update_of_ne heq]
        by_cases hin : t.delivered.length ≤ n ∧ n < t.delivered.length + (as.length + 1)
        · rw [if_pos (by omega), if_pos hin]
        · rw [if_neg (by omega), if_neg hin]
    dsimp only at hrest
    rw [hheld, List.append_assoc, List.singleton_append] at hrest
    exact .head (.deliver t hfirst) hrest

end Evlite.Lib.SlidingWindow
