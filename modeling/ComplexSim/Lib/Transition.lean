import Mathlib.Logic.Function.Basic

/-!
# Labelled transition systems

A system is an initial-state predicate and a labelled step relation. Runs are
restricted by a condition `ok` on the label and the state it leaves from, so
that one induction serves both the unconditional results (`Reachable`) and
those about the runs whose steps all meet a condition (`ReachableIf`).
-/

namespace Lts

universe u v w x

/-- A labelled transition system over the states `σ` with labels `ℓ`. -/
structure System (σ : Type u) (ℓ : Type v) where
  init : σ → Prop
  step : σ → ℓ → σ → Prop

/-- The system of a partial step function. -/
def System.ofFn {σ : Type u} {ℓ : Type v} (init : σ → Prop) (f : σ → ℓ → Option σ) : System σ ℓ where
  init := init
  step s a t := f s a = some t

/-- `Run M ok s t`: steps that all meet `ok` lead from `s` to `t`. -/
inductive Run {σ : Type u} {ℓ : Type v} (M : System σ ℓ) (ok : σ → ℓ → Prop) : σ → σ → Prop where
  | refl (s : σ) : Run M ok s s
  | tail {s t u : σ} {a : ℓ} : Run M ok s t → ok t a → M.step t a u → Run M ok s u

/-- The states of the runs whose steps all meet `ok`. -/
def ReachableIf {σ : Type u} {ℓ : Type v} (M : System σ ℓ) (ok : σ → ℓ → Prop) (t : σ) : Prop :=
  ∃ s, M.init s ∧ Run M ok s t

/-- The states of all runs. -/
abbrev Reachable {σ : Type u} {ℓ : Type v} (M : System σ ℓ) (t : σ) : Prop :=
  ReachableIf M (fun _ _ => True) t

section Runs

variable {σ : Type u} {ℓ : Type v} {M : System σ ℓ} {ok : σ → ℓ → Prop}

theorem Run.trans {s t u : σ} (h : Run M ok s t) (h' : Run M ok t u) : Run M ok s u := by
  induction h' with
  | refl => exact h
  | tail _ hok hstep ih => exact ih.tail hok hstep

theorem Run.mono {ok' : σ → ℓ → Prop} (himp : ∀ s a, ok s a → ok' s a) {s t : σ}
    (h : Run M ok s t) : Run M ok' s t := by
  induction h with
  | refl => exact .refl _
  | tail _ hok hstep ih => exact ih.tail (himp _ _ hok) hstep

theorem ReachableIf.mono {ok' : σ → ℓ → Prop} (himp : ∀ s a, ok s a → ok' s a) {s : σ}
    (h : ReachableIf M ok s) : ReachableIf M ok' s := by
  obtain ⟨s₀, h₀, hrun⟩ := h
  exact ⟨s₀, h₀, hrun.mono himp⟩

theorem ReachableIf.of_init {s : σ} (h : M.init s) : ReachableIf M ok s := ⟨s, h, .refl s⟩

theorem ReachableIf.tail {s t : σ} {a : ℓ} (h : ReachableIf M ok s) (hok : ok s a)
    (hstep : M.step s a t) : ReachableIf M ok t := by
  obtain ⟨s₀, hinit, hrun⟩ := h
  exact ⟨s₀, hinit, hrun.tail hok hstep⟩

theorem ReachableIf.run {s t : σ} (h : ReachableIf M ok s) (hrun : Run M ok s t) :
    ReachableIf M ok t := by
  obtain ⟨s₀, hinit, hrun₀⟩ := h
  exact ⟨s₀, hinit, hrun₀.trans hrun⟩

theorem ReachableIf.reachable {s : σ} (h : ReachableIf M ok s) : Reachable M s := by
  obtain ⟨s₀, hinit, hrun⟩ := h
  exact ⟨s₀, hinit, hrun.mono fun _ _ _ => trivial⟩

/-- **The invariant rule**, relative to the condition on steps and to facts `P`
already known of the states of these runs. -/
theorem ReachableIf.invariant_of {P I : σ → Prop}
    (hP : ∀ s, ReachableIf M ok s → P s)
    (hinit : ∀ s, M.init s → I s)
    (hstep : ∀ s a t, P s → P t → I s → ok s a → M.step s a t → I t)
    {s : σ} (h : ReachableIf M ok s) : I s := by
  obtain ⟨s₀, h₀, hrun⟩ := h
  induction hrun with
  | refl => exact hinit _ h₀
  | tail hrun hok hs ih =>
      exact hstep _ _ _ (hP _ ⟨s₀, h₀, hrun⟩) (hP _ ⟨s₀, h₀, hrun.tail hok hs⟩) ih hok hs

/-- The invariant rule without side facts. -/
theorem ReachableIf.invariant {I : σ → Prop} (hinit : ∀ s, M.init s → I s)
    (hstep : ∀ s a t, I s → ok s a → M.step s a t → I t) {s : σ} (h : ReachableIf M ok s) :
    I s :=
  h.invariant_of (P := fun _ => True) (fun _ _ => trivial) hinit
    (fun s a t _ _ => hstep s a t)

/-- What every step keeps, a run keeps. -/
theorem Run.invariant {I : σ → Prop} (hstep : ∀ s a t, I s → ok s a → M.step s a t → I t)
    {s t : σ} (h : Run M ok s t) (hs : I s) : I t := by
  induction h with
  | refl => exact hs
  | tail _ hok hst ih => exact hstep _ _ _ ih hok hst

/-- No action that satisfies `p` is possible from `s` on, whatever the others do. -/
def Blocked (M : System σ ℓ) (ok : σ → ℓ → Prop) (p : ℓ → Prop) (s : σ) : Prop :=
  ∀ t, Run M ok s t → ∀ a u, p a → ok t a → ¬ M.step t a u

theorem Blocked.run {p : ℓ → Prop} {s t : σ} (h : Blocked M ok p s) (hrun : Run M ok s t) :
    Blocked M ok p t :=
  fun u hu => h u (hrun.trans hu)

/-- A condition that every step keeps, and under which the actions of `p` are impossible,
blocks them. -/
theorem Blocked.of_invariant {p : ℓ → Prop} {I : σ → Prop}
    (hstep : ∀ s a t, I s → ok s a → M.step s a t → I t ∧ ¬ p a) {s : σ} (hs : I s) :
    Blocked M ok p s := by
  intro t hrun a u hp hok hu
  have ht : I t := hrun.invariant (fun s a t hi hok h => (hstep s a t hi hok h).1) hs
  exact (hstep t a u ht hok hu).2 hp

end Runs

section Execution

variable {σ : Type u} {ℓ : Type v}

/-- Run a partial step function along a list of labels. -/
def exec (f : σ → ℓ → Option σ) : List ℓ → σ → Option σ
  | [], s => some s
  | a :: as, s => (f s a).bind (exec f as)

theorem exec_run {init : σ → Prop} {f : σ → ℓ → Option σ} {l : List ℓ} {s t : σ}
    (h : exec f l s = some t) : Run (System.ofFn init f) (fun _ _ => True) s t := by
  induction l generalizing s with
  | nil => cases h; exact .refl _
  | cons a as ih =>
      obtain ⟨u, hu, hrest⟩ := Option.bind_eq_some_iff.1 h
      exact Run.trans (.tail (.refl s) trivial hu) (ih hrest)

theorem exec_append {f : σ → ℓ → Option σ} {l m : List ℓ} {s t u : σ} (hl : exec f l s = some t)
    (hm : exec f m t = some u) : exec f (l ++ m) s = some u := by
  induction l generalizing s with
  | nil => cases hl; exact hm
  | cons a as ih =>
      obtain ⟨v, hv, hrest⟩ := Option.bind_eq_some_iff.1 hl
      exact Option.bind_eq_some_iff.2 ⟨v, hv, ih hrest⟩

theorem exec_singleton (f : σ → ℓ → Option σ) (a : ℓ) (s : σ) : exec f [a] s = f s a :=
  Option.bind_fun_some (f s a)

/-- An execution checked by evaluating a test at its end. -/
theorem exec_of_any {f : σ → ℓ → Option σ} {l : List ℓ} {s : σ} {p : σ → Bool}
    (h : (exec f l s).any p = true) : ∃ t, exec f l s = some t ∧ p t = true :=
  (Option.any_eq_true _ _).1 h

/-- Two executions, one after the other, checked by evaluating a test at the end of each. -/
theorem exec_of_any_then {f g : σ → ℓ → Option σ} {l m : List ℓ} {s : σ} {p q : σ → Bool}
    (h : ((exec f l s).any fun t => p t && (exec g m t).any q) = true) :
    ∃ t u, exec f l s = some t ∧ p t = true ∧ exec g m t = some u ∧ q u = true := by
  obtain ⟨t, ht, hboth⟩ := exec_of_any h
  obtain ⟨hp, hrest⟩ := Bool.and_eq_true_iff.1 hboth
  obtain ⟨u, hu, hq⟩ := exec_of_any hrest
  exact ⟨t, u, ht, hp, hu, hq⟩

/-- A label list that executes from an initial state ends in a reachable state. -/
theorem exec_reachable {init : σ → Prop} {f : σ → ℓ → Option σ} {l : List ℓ} {s t : σ}
    (hs : init s) (h : exec f l s = some t) : Reachable (System.ofFn init f) t :=
  ⟨s, hs, exec_run h⟩

/-- `f`, where the condition on its steps is met. -/
def guarded (ok : σ → ℓ → Prop) [∀ s a, Decidable (ok s a)] (f : σ → ℓ → Option σ) (s : σ) (a : ℓ) :
    Option σ :=
  if ok s a then f s a else none

theorem exec_guarded_run {init : σ → Prop} {ok : σ → ℓ → Prop} [∀ s a, Decidable (ok s a)]
    {f : σ → ℓ → Option σ} {l : List ℓ} {s t : σ} (h : exec (guarded ok f) l s = some t) :
    Run (System.ofFn init f) ok s t := by
  induction l generalizing s with
  | nil => cases h; exact .refl _
  | cons a as ih =>
      obtain ⟨u, hu, hrest⟩ := Option.bind_eq_some_iff.1 h
      unfold guarded at hu
      split at hu
      · exact Run.trans (.tail (.refl s) ‹_› hu) (ih hrest)
      · cases hu

end Execution

section Refinement

variable {σ : Type u} {ℓ : Type v} {τ : Type w} {κ : Type x}

/-- `abs` refines `M` to `N`: each reachable step of `M` is a step of `N` between
the abstractions, or leaves the abstraction as it is. Steps that meet `okM`
become steps that meet `okN`. -/
structure Refines (M : System σ ℓ) (N : System τ κ) (okM : σ → ℓ → Prop) (okN : τ → κ → Prop)
    (abs : σ → τ) : Prop where
  init : ∀ s, M.init s → N.init (abs s)
  step : ∀ s a t, ReachableIf M okM s → okM s a → M.step s a t →
    abs t = abs s ∨ ∃ b, okN (abs s) b ∧ N.step (abs s) b (abs t)

theorem Refines.reachable {M : System σ ℓ} {N : System τ κ} {okM : σ → ℓ → Prop}
    {okN : τ → κ → Prop} {abs : σ → τ} (h : Refines M N okM okN abs) {s : σ}
    (hs : ReachableIf M okM s) : ReachableIf N okN (abs s) := by
  refine hs.invariant_of (P := ReachableIf M okM) (I := fun s => ReachableIf N okN (abs s))
    (fun _ h => h) (fun s hi => ReachableIf.of_init (h.init s hi)) ?_
  intro s a t hr _ ih hok hstep
  rcases h.step s a t hr hok hstep with heq | ⟨b, hb, hN⟩
  · rw [heq]; exact ih
  · exact ih.tail hb hN

end Refinement

end Lts
