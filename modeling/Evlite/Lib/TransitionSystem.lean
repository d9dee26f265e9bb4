import Mathlib.Data.List.Induction

/-!
# Labelled Transition Systems and Guarded Runs

A system is a partial step function `step : σ → ι → Option σ`: from state `s` the input
`i` is either not enabled (`none`) or leads to one successor. Everything nondeterministic
(the kernel's answers, what a callback does, which event is delivered next) sits in the
input.

A `GuardedRun` is a finite run all of whose steps meet a condition on the state *before*
the step and the input. The plain `Run` has the trivial condition.

## Main results

- `GuardedRun.invariant`: an invariant kept by every step that meets the condition holds
  at the end of every guarded run, hence in every state such a run reaches.
- `GuardedRun.mono`: weakening the condition.
- `GuardedRun.of_exec`: guarded runs found by execution.
- `final_iff_guarded`: a property that every step keeps exactly if it meets the condition
  holds at the end of a run exactly if all its steps meet it.
- `states_all_iff_guarded`: when a step from a good state leads to a good state *exactly*
  if it meets the condition, a run stays in good states exactly if all its steps meet it.
-/

namespace Evlite.Lib

variable {σ ι : Type*} {step : σ → ι → Option σ} {cond cond' : σ → ι → Prop}

/-! ## Runs -/

/-- Finite runs whose steps all satisfy `cond` in the state they are taken from. -/
inductive GuardedRun (step : σ → ι → Option σ) (cond : σ → ι → Prop) :
    σ → List ι → σ → Prop where
  | nil (s : σ) : GuardedRun step cond s [] s
  | snoc {s t u : σ} {is : List ι} {i : ι} :
      GuardedRun step cond s is t → cond t i → step t i = some u →
      GuardedRun step cond s (is ++ [i]) u

/-- Finite runs without any condition on the steps. -/
abbrev Run (step : σ → ι → Option σ) : σ → List ι → σ → Prop :=
  GuardedRun step fun _ _ => True

/-- Invariant rule: what holds initially and is kept by every step that meets the
condition holds wherever a guarded run ends. -/
theorem GuardedRun.invariant {I : σ → Prop} {s t : σ} {is : List ι}
    (hrun : GuardedRun step cond s is t) (hinit : I s)
    (hstep : ∀ t i u, I t → cond t i → step t i = some u → I u) : I t := by
  induction hrun with
  | nil => exact hinit
  | snoc _ hc hs ih => exact hstep _ _ _ ih hc hs

/-- A run under a stronger condition is a run under a weaker one. -/
theorem GuardedRun.mono {s t : σ} {is : List ι} (h : ∀ s i, cond s i → cond' s i)
    (hrun : GuardedRun step cond s is t) : GuardedRun step cond' s is t := by
  induction hrun with
  | nil => exact .nil _
  | snoc _ hc hs ih => exact .snoc ih (h _ _ hc) hs

theorem GuardedRun.run {s t : σ} {is : List ι} (hrun : GuardedRun step cond s is t) :
    Run step s is t :=
  hrun.mono fun _ _ _ => trivial

theorem GuardedRun.append {s t u : σ} {is js : List ι} (h₁ : GuardedRun step cond s is t)
    (h₂ : GuardedRun step cond t js u) : GuardedRun step cond s (is ++ js) u := by
  induction h₂ with
  | nil => simpa using h₁
  | snoc _ hc hs ih =>
    rw [← List.append_assoc]
    exact .snoc ih hc hs

/-! ## Executing a list of inputs -/

/-- The state after a list of inputs, `none` as soon as one of them is not enabled. -/
def exec (step : σ → ι → Option σ) (s : σ) : List ι → Option σ
  | [] => some s
  | i :: is => (step s i).bind fun t => exec step t is

theorem exec_append (s : σ) (is js : List ι) :
    exec step s (is ++ js) = (exec step s is).bind fun t => exec step t js := by
  induction is generalizing s with
  | nil => rfl
  | cons i is ih =>
    simp only [List.cons_append, exec]
    cases step s i with
    | none => rfl
    | some t => simpa using ih t

/-- Executing a list of inputs and being related by a run are the same thing. -/
theorem run_iff_exec {s t : σ} {is : List ι} : Run step s is t ↔ exec step s is = some t := by
  constructor
  · intro hrun
    induction hrun with
    | nil => rfl
    | snoc _ _ hs ih => simp [exec_append, ih, exec, hs]
  · intro hexec
    induction is using List.reverseRecOn generalizing t with
    | nil =>
      obtain rfl : s = t := by simpa [exec] using hexec
      exact .nil _
    | append_singleton is i ih =>
      rw [exec_append] at hexec
      obtain ⟨u, hu, ht⟩ := Option.bind_eq_some_iff.mp hexec
      refine .snoc (ih hu) trivial ?_
      cases hs : step u i with
      | none => simp [exec, hs] at ht
      | some v => simpa [exec, hs] using ht

/-- The state after a list of inputs, `none` as soon as one of them is not enabled or does
not meet the condition. -/
def guardedExec (step : σ → ι → Option σ) (cond : σ → ι → Prop) [∀ s i, Decidable (cond s i)]
    (s : σ) : List ι → Option σ
  | [] => some s
  | i :: is => if cond s i then (step s i).bind fun t => guardedExec step cond t is else none

theorem GuardedRun.cons {s t u : σ} {i : ι} {is : List ι} (hc : cond s i)
    (hs : step s i = some t) (hrun : GuardedRun step cond t is u) :
    GuardedRun step cond s (i :: is) u :=
  GuardedRun.append (.snoc (.nil s) hc hs) hrun

/-- Guarded runs can be found by execution. -/
theorem GuardedRun.of_exec [∀ s i, Decidable (cond s i)] {s t : σ} {is : List ι}
    (hexec : guardedExec step cond s is = some t) : GuardedRun step cond s is t := by
  induction is generalizing s with
  | nil =>
    obtain rfl : s = t := by simpa [guardedExec] using hexec
    exact .nil _
  | cons i is ih =>
    rw [guardedExec] at hexec
    split at hexec
    · rename_i hc
      obtain ⟨u, hs, hu⟩ := Option.bind_eq_some_iff.mp hexec
      exact .cons hc hs (ih hu)
    · cases hexec

/-! ## Exact conditions -/

/-- Runs are deterministic. -/
theorem Run.unique {s t u : σ} {is : List ι} (ht : Run step s is t) (hu : Run step s is u) :
    t = u := by
  simpa [run_iff_exec.mp ht] using run_iff_exec.mp hu

/-- The rest of a run, from a state it passes. -/
theorem Run.drop {s t u : σ} {is js : List ι} (ht : Run step s (is ++ js) t)
    (hu : Run step s is u) : Run step u js t := by
  rw [run_iff_exec] at *
  rw [exec_append, hu] at ht
  exact ht

/-- The last step of a guarded run. -/
theorem guardedRun_snoc_iff {s t u : σ} {is : List ι} {i : ι} (hrun : Run step s is t)
    (hs : step t i = some u) :
    GuardedRun step cond s (is ++ [i]) u ↔ GuardedRun step cond s is t ∧ cond t i := by
  refine ⟨fun hg => ?_, fun ⟨hg, hc⟩ => .snoc hg hc hs⟩
  generalize hl : is ++ [i] = l at hg
  cases hg with
  | nil => simp at hl
  | snoc hg hc hs' =>
    obtain ⟨rfl, hi⟩ := List.append_inj' hl rfl
    obtain rfl : i = _ := by simpa using hi
    obtain rfl := hrun.unique hg.run
    exact ⟨hg, hc⟩

/-- If every step from a state with `J` makes `Good` hold exactly when it held before and the
step meets the condition, then `Good` holds at the end of a run exactly when all its steps
meet the condition. Here all steps of the run meet a first condition already. -/
theorem GuardedRun.final_iff_guarded {Good J : σ → Prop} {s t : σ} {is : List ι}
    (hrun : GuardedRun step cond' s is t) (hgood : Good s) (hJ : J s)
    (hstep : ∀ t i u, J t → cond' t i → step t i = some u → (Good u ↔ Good t ∧ cond t i))
    (hkeep : ∀ t i u, J t → cond' t i → step t i = some u → J u) :
    Good t ↔ GuardedRun step cond s is t := by
  induction hrun with
  | nil => exact ⟨fun _ => .nil _, fun _ => hgood⟩
  | @snoc t u is i hrun hc hs ih =>
    have hJt : J t := hrun.invariant hJ hkeep
    rw [guardedRun_snoc_iff hrun.run hs, ← ih, hstep t i u hJt hc hs]

/-- If every step from a state with `J` makes `Good` hold exactly when it held before and the
step meets the condition, then `Good` holds at the end of a run exactly when all its steps
meet the condition. -/
theorem final_iff_guarded {Good J : σ → Prop} {s t : σ} {is : List ι}
    (hrun : Run step s is t) (hgood : Good s) (hJ : J s)
    (hstep : ∀ t i u, J t → step t i = some u → (Good u ↔ Good t ∧ cond t i))
    (hkeep : ∀ t i u, J t → step t i = some u → J u) :
    Good t ↔ GuardedRun step cond s is t :=
  GuardedRun.final_iff_guarded hrun hgood hJ (fun t i u hJt _ => hstep t i u hJt)
    fun t i u hJt _ => hkeep t i u hJt

/-- If, from good states, a step keeps the state good exactly when it meets the condition,
then a run visits only good states exactly when all its steps meet the condition.

`J` carries what is needed besides `Good` to know this, and is kept along with it. -/
theorem states_all_iff_guarded {Good J : σ → Prop} {s t : σ} {is : List ι}
    (hrun : Run step s is t) (hgood : Good s) (hJ : J s)
    (hstep : ∀ t i u, J t → Good t → step t i = some u → (Good u ↔ cond t i))
    (hkeep : ∀ t i u, J t → Good t → Good u → step t i = some u → J u) :
    (∀ js u, js <+: is → Run step s js u → Good u) ↔ GuardedRun step cond s is t := by
  induction hrun with
  | nil =>
    refine ⟨fun _ => .nil _, fun _ js u hpre hrun => ?_⟩
    obtain rfl := List.prefix_nil.mp hpre
    obtain rfl : s = u := by simpa [exec] using run_iff_exec.mp hrun
    exact hgood
  | @snoc t u is i hrun _ hs ih =>
    -- along a guarded run every state is good
    have hJt : ∀ {js v}, GuardedRun step cond s js v → Good v ∧ J v := fun hg =>
      hg.invariant (I := fun v => Good v ∧ J v) ⟨hgood, hJ⟩ fun v j w hv hc hw =>
        have hgw := (hstep v j w hv.2 hv.1 hw).mpr hc
        ⟨hgw, hkeep v j w hv.2 hv.1 hgw hw⟩
    have hsnoc : Run step s (is ++ [i]) u := .snoc hrun trivial hs
    rw [guardedRun_snoc_iff hrun hs]
    constructor
    · intro hall
      have hg := ih.mp fun js v hpre => hall js v (hpre.trans (List.prefix_append _ _))
      have hgu := hall _ u (List.prefix_refl _) hsnoc
      exact ⟨hg, (hstep t i u (hJt hg).2 (hJt hg).1 hs).mp hgu⟩
    · intro ⟨hg, hc⟩ js v hpre hv
      -- a prefix is the whole run or one of the shorter run
      rcases List.prefix_concat_iff.mp hpre with rfl | hpre
      · rw [hv.unique hsnoc]
        exact (hstep t i u (hJt hg).2 (hJt hg).1 hs).mpr hc
      · exact ih.mpr hg js v hpre hv

end Evlite.Lib
