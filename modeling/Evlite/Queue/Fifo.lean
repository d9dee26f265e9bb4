import Evlite.Lib.TransitionSystem
import Evlite.Queue.Queue

/-!
# Generated Queues Are First-In First-Out

Any number of generated queues are used through any sequence of calls, `QUEUE_SWAP` between
two of them included. Beside them run plain lists, one for each queue. Both give the same
answers, and every queue holds the elements of its list in their order.

## Main results

- `queues_are_fifo`: the simulation over every run, growth and wrapped counters included.
-/

namespace Evlite

open Lib

/-- The calls on a family of queues. `alloc` tells whether the allocation a call makes
succeeds. -/
inductive QueueCall (ι α : Type) where
  | push (self : ι) (data : α) (alloc : Bool)
  | pop (self : ι)
  | top (self : ι)
  | get (self : ι) (i : BitVec 32)
  | count (self : ι)
  | swap (self q : ι)
  | reset (self : ι)
  | shrink (self : ι) (size : BitVec 32) (alloc : Bool)
deriving Repr, DecidableEq

/-- What a call tells about the elements. -/
inductive QueueAnswer (α : Type) where
  /-- The returned integer and the element read. -/
  | rc (rc : Int) (data : Option α)
  /-- The returned number of elements. -/
  | count (n : Nat)
  /-- Nothing is told about the elements. -/
  | silent
deriving Repr, DecidableEq

/-! ## The queues of the source and the lists they stand for -/

/-- A family of generated queues, and the answers their calls gave. -/
structure Queues (ι α : Type) where
  queue : ι → Queue α
  answers : List (QueueAnswer α) := []

/-- A family of lists, and the answers they gave. -/
structure Fifos (ι α : Type) where
  elements : ι → List α := fun _ => []
  answers : List (QueueAnswer α) := []

variable {ι α : Type}

/-- Each queue as `QUEUE_INIT` leaves it when its allocation succeeds. -/
def Queues.init [Inhabited α] (sizes : ι → BitVec 32) : Queues ι α where
  queue i := (Queue.init (sizes i) true).1

/-- Store a new state for one queue and record an answer. -/
def Queues.set [DecidableEq ι] (s : Queues ι α) (i : ι) (q : Queue α) (answer : QueueAnswer α) : Queues ι α where
  queue := Function.update s.queue i q
  answers := s.answers ++ [answer]

/-- A call on the generated queues. -/
def Queues.call [DecidableEq ι] [Inhabited α] (s : Queues ι α) : QueueCall ι α → Queues ι α
  | .push i data alloc =>
    let r := (s.queue i).push data alloc
    s.set i r.1 (.rc r.2 none)
  | .pop i =>
    let r := (s.queue i).pop
    s.set i r.1 (.rc r.2.1 r.2.2)
  | .top i =>
    let r := (s.queue i).top
    s.set i (s.queue i) (.rc r.1 r.2)
  | .get i k =>
    let r := (s.queue i).get k
    s.set i (s.queue i) (.rc r.1 r.2)
  | .count i => s.set i (s.queue i) (.count (s.queue i).count.toNat)
  | .swap i j =>
    let r := (s.queue i).swap (s.queue j)
    { queue := Function.update (Function.update s.queue i r.1) j r.2
      answers := s.answers ++ [.rc 0 none] }
  | .reset i => s.set i (s.queue i).reset .silent
  | .shrink i size alloc => s.set i ((s.queue i).shrink size alloc).1 .silent

/-- Store a new list and record an answer. -/
def Fifos.set [DecidableEq ι] (f : Fifos ι α) (i : ι) (l : List α) (answer : QueueAnswer α) : Fifos ι α where
  elements := Function.update f.elements i l
  answers := f.answers ++ [answer]

/-- A call on the lists: what a first-in first-out queue is to do. -/
def Fifos.call [DecidableEq ι] (f : Fifos ι α) : QueueCall ι α → Fifos ι α
  | .push i data _ => f.set i (f.elements i ++ [data]) (.rc 0 none)
  | .pop i =>
    f.set i (f.elements i).tail (match (f.elements i).head? with
      | some x => .rc 1 (some x)
      | none => .rc 0 none)
  | .top i =>
    f.set i (f.elements i) (match (f.elements i).head? with
      | some x => .rc 0 (some x)
      | none => .rc (-1) none)
  | .get i k =>
    f.set i (f.elements i) (match (f.elements i)[k.toNat]? with
      | some x => .rc 0 (some x)
      | none => .rc (-1) none)
  | .count i => f.set i (f.elements i) (.count (f.elements i).length)
  | .swap i j =>
    { elements := Function.update (Function.update f.elements i (f.elements j)) j (f.elements i)
      answers := f.answers ++ [.rc 0 none] }
  | .reset i => f.set i [] .silent
  | .shrink i _ _ => f.set i (f.elements i) .silent

/-! ## The simulation -/

/-- The allocation of a call succeeds, a queue grows to less than `2 ^ 31` cells only, and
shrinks to a power of two. -/
def Queues.Admits (s : Queues ι α) : QueueCall ι α → Prop
  | .push i _ alloc => alloc = true ∧
      ((s.queue i).count = (s.queue i).size → (s.queue i).size.toNat * 2 < 2 ^ 31)
  | .shrink _ size _ => ∃ k, size.toNat = 2 ^ k
  | _ => True

/-- Every queue holds the elements of its list, and the answers were the same. -/
structure Simulates (s : Queues ι α) (f : Fifos ι α) : Prop where
  wellFormed : ∀ i, (s.queue i).WellFormed
  contents : ∀ i, (s.queue i).contents = f.elements i
  answers : s.answers = f.answers

theorem Simulates.init [Inhabited α] {sizes : ι → BitVec 32}
    (hsizes : ∀ i, Queue.InitialSize (sizes i) ∧ (sizes i).toNat < 2 ^ 31) :
    Simulates (Queues.init sizes : Queues ι α) {} where
  wellFormed i := (Queue.init_wellFormed (hsizes i).1 (hsizes i).2).1
  contents i := (Queue.init_wellFormed (hsizes i).1 (hsizes i).2).2
  answers := rfl

variable {s : Queues ι α} {f : Fifos ι α}

/-- A call that works on one queue. -/
theorem Simulates.set [DecidableEq ι] (h : Simulates s f) {i : ι} {q : Queue α} {l : List α}
    {answer answer' : QueueAnswer α} (hq : q.WellFormed) (hl : q.contents = l)
    (hanswer : answer = answer') : Simulates (s.set i q answer) (f.set i l answer') where
  wellFormed j := by
    rcases eq_or_ne j i with rfl | hne
    · simpa [Queues.set] using hq
    · simpa [Queues.set, hne] using h.wellFormed j
  contents j := by
    rcases eq_or_ne j i with rfl | hne
    · simpa [Queues.set, Fifos.set] using hl
    · simpa [Queues.set, Fifos.set, hne] using h.contents j
  answers := by rw [Queues.set, Fifos.set, h.answers, hanswer]

/-- A call that only reads. -/
theorem Simulates.read [DecidableEq ι] (h : Simulates s f) {i : ι} {answer answer' : QueueAnswer α}
    (hanswer : answer = answer') :
    Simulates (s.set i (s.queue i) answer) (f.set i (f.elements i) answer') :=
  h.set (h.wellFormed i) (h.contents i) hanswer

/-- `QUEUE_GET` answers like the list. -/
theorem Simulates.get (h : Simulates s f) (i : ι) (k : BitVec 32) :
    (s.queue i).get k = match (f.elements i)[k.toNat]? with
      | some x => (0, some x)
      | none => (-1, none) := by
  rw [(h.wellFormed i).get_eq, h.contents]
  split
  · rename_i hlt
    rw [List.getElem?_eq_getElem hlt]
  · rename_i hge
    rw [List.getElem?_eq_none (by omega)]

/-- One call keeps the queues and the lists together. -/
theorem Simulates.call [DecidableEq ι] [Inhabited α] (h : Simulates s f) {c : QueueCall ι α} (hc : s.Admits c) :
    Simulates (s.call c) (f.call c) := by
  cases c with
  | push i data alloc =>
    obtain ⟨rfl, hgrow⟩ := hc
    -- a full queue is asked to grow, which the condition allows
    have hgrow' : (s.queue i).count.toNat = (s.queue i).size.toNat →
        (s.queue i).size.toNat * 2 < 2 ^ 31 := fun heq => hgrow (BitVec.eq_of_toNat_eq heq)
    obtain ⟨hwf, hcontents, hrc⟩ := (h.wellFormed i).push data hgrow'
    exact h.set hwf (by rw [hcontents, h.contents]) (by rw [hrc])
  | pop i =>
    obtain ⟨hwf, hcontents, hrc⟩ := (h.wellFormed i).pop
    rw [h.contents] at hcontents hrc
    refine h.set hwf hcontents ?_
    rw [hrc]
    cases f.elements i <;> rfl
  | top i =>
    refine h.read ?_
    rw [Queue.top, h.get i 0]
    cases f.elements i <;> rfl
  | get i k =>
    refine h.read ?_
    rw [h.get i k]
    cases (f.elements i)[k.toNat]? <;> rfl
  | count i => exact h.read (by rw [← h.contents, (h.wellFormed i).length_contents])
  | swap i j =>
    refine ⟨fun k => ?_, fun k => ?_, ?_⟩
    · simp only [Queues.call, Queue.swap, Function.update_apply]
      split
      · exact h.wellFormed i
      · split
        · exact h.wellFormed j
        · exact h.wellFormed k
    · simp only [Queues.call, Fifos.call, Queue.swap, Function.update_apply]
      split
      · exact h.contents i
      · split
        · exact h.contents j
        · exact h.contents k
    · simp only [Queues.call, Fifos.call, h.answers]
  | reset i =>
    obtain ⟨hwf, hcontents⟩ := (h.wellFormed i).reset
    exact h.set hwf hcontents rfl
  | shrink i size alloc =>
    obtain ⟨hwf, hcontents⟩ := (h.wellFormed i).shrink hc alloc
    exact h.set hwf (by rw [hcontents, h.contents]) rfl

/-- Generated queues are first-in first-out: over every run their calls answer like calls on
lists, and afterwards each queue counts and reads the elements of its list. -/
theorem queues_are_fifo [DecidableEq ι] [Inhabited α] {sizes : ι → BitVec 32}
    (hsizes : ∀ i, Queue.InitialSize (sizes i) ∧ (sizes i).toNat < 2 ^ 31)
    {calls : List (QueueCall ι α)} {s : Queues ι α}
    (hrun : GuardedRun (fun s c => some (s.call c)) Queues.Admits (Queues.init sizes) calls s) :
    let f : Fifos ι α := calls.foldl Fifos.call {}
    s.answers = f.answers ∧ ∀ i, (s.queue i).contents = f.elements i ∧
      (s.queue i).count.toNat = (f.elements i).length ∧
      ∀ k, (s.queue i).get k = match (f.elements i)[k.toNat]? with
        | some x => (0, some x)
        | none => (-1, none) := by
  have hsim : Simulates s (calls.foldl Fifos.call {}) := by
    -- induction on the run, which grows at its end
    induction hrun with
    | nil => exact Simulates.init hsizes
    | snoc _ hc hs ih =>
      obtain rfl := Option.some.inj hs
      rw [List.foldl_append]
      exact ih.call hc
  refine ⟨hsim.answers, fun i => ⟨hsim.contents i, ?_, hsim.get i⟩⟩
  rw [← hsim.contents, (hsim.wellFormed i).length_contents]

/-- Three elements in a queue of two cells, which grows, loses its first element and is
swapped with another queue. -/
def swapAfterGrowth : List (QueueCall Bool Nat) :=
  [.push false 7 true, .push false 8 true, .push false 9 true, .pop false, .swap false true,
    .count true]

theorem queues_are_fifo_swapAfterGrowth :
    let s : Queues Bool Nat := swapAfterGrowth.foldl Queues.call (Queues.init fun _ => 2)
    s.answers = [.rc 0 none, .rc 0 none, .rc 0 none, .rc 1 (some 7), .rc 0 none, .count 2] ∧
      (s.queue true).contents = [8, 9] ∧ (s.queue true).get 2 = (-1, none) := by
  have hsizes : ∀ _ : Bool, Queue.InitialSize 2 ∧ (2 : BitVec 32).toNat < 2 ^ 31 :=
    fun _ => ⟨.inr ⟨1, rfl⟩, by decide⟩
  have hrun : GuardedRun (fun s c => some (s.call c)) Queues.Admits
      (Queues.init fun _ => 2 : Queues Bool Nat) swapAfterGrowth
      (swapAfterGrowth.foldl Queues.call (Queues.init fun _ => 2)) :=
    .cons ⟨rfl, by decide⟩ rfl <| .cons ⟨rfl, by decide⟩ rfl <| .cons ⟨rfl, by decide⟩ rfl <|
      .cons trivial rfl <| .cons trivial rfl <| .cons trivial rfl <| .nil _
  obtain ⟨hanswers, hqueues⟩ := queues_are_fifo hsizes hrun
  exact ⟨hanswers.trans (by decide), (hqueues true).1.trans (by decide),
    ((hqueues true).2.2 2).trans (by decide)⟩

end Evlite
