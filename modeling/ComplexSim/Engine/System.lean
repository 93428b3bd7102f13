import ComplexSim.Engine.Basic
import ComplexSim.Workerpool.Refinement

/-!
# A simulation run: the engine with its two pools

`Sim` joins the threads of `Env` to the pool of the event manager and to the pool of
the engine: a step of a pool is a step of the run when `Env` takes its event. `View`
is the same run with each pool replaced by its specification. Every run is a run of
the view (`sim_refines`), so what is proved of the view holds of the code.
-/

namespace ComplexSim.Engine

open Workerpool Events

variable {W m : Nat} {δ : Type}

/-- A run of `cs_sim_start` with `W` event workers and `m` workers of the engine. -/
structure Sim (W m : Nat) (δ : Type) where
  env : Env W m δ
  evmWp : Pool (W + 1) (EvTask δ)
  engWp : Pool m UserTask

/-- The steps of a run. -/
inductive SimAction (W m : Nat) (δ : Type) where
  | own (a : EnvAction W m δ)
  /-- a step of the pool of the event manager -/
  | evm (a : Pool.Action (W + 1) (EvTask δ))
  /-- a step of the pool of the engine -/
  | eng (a : Pool.Action m UserTask)

/-- A worker of the event manager; in the runs that are written out below it performs the controller. -/
def ctlWorker : Fin (W + 1) := ⟨0, W.succ_pos⟩

/-- The other of two workers. -/
def sliceWorker : Fin (1 + 1) := ⟨1, Nat.one_lt_two⟩

/-- `cs_init_engine`, `cs_init_event_manager` and the timer. -/
def Sim.init (cfg : Config) (W m : Nat) (δ : Type) : Sim W m δ where
  env := .init cfg
  evmWp := csWpInit (W + 1) (EvTask δ) ((W + 1) * 10)
  engWp := csWpInit m UserTask (m * 10)

/-- One step of a run; a crash ends it. -/
def Sim.step [DecidableEq δ] (cfg : Config) (s : Sim W m δ) (a : SimAction W m δ) :
    Option (Sim W m δ) :=
  if s.env.failed.isSome then none
  else match a with
    | .own a => (s.env.step cfg a).map fun env => { s with env := env }
    | .evm a => (s.evmWp.stepEvent a).bind fun (wp, e) =>
        (s.env.observeEvm e).map fun env => { s with env := env, evmWp := wp }
    | .eng a => (s.engWp.stepEvent a).bind fun (wp, e) =>
        (s.env.observeEng e).map fun env => { s with env := env, engWp := wp }

/-- The runs of the code. -/
def system [DecidableEq δ] (cfg : Config) (W m : Nat) : Lts.System (Sim W m δ) (SimAction W m δ) :=
  .ofFn (· = Sim.init cfg W m δ) (Sim.step cfg)

/-- A run as its clients see the pools. -/
structure View (W m : Nat) (δ : Type) where
  env : Env W m δ
  evm : TaskPool (W + 1) (EvTask δ)
  eng : TaskPool m UserTask

inductive ViewLabel (W m : Nat) (δ : Type) where
  | own (a : EnvAction W m δ)
  | evm (e : PoolEvent (W + 1) (EvTask δ))
  | eng (e : PoolEvent m UserTask)

inductive View.Step [DecidableEq δ] (cfg : Config) (v : View W m δ) :
    ViewLabel W m δ → View W m δ → Prop where
  | own {a : EnvAction W m δ} {env : Env W m δ} (hrun : v.env.failed = none)
      (h : v.env.step cfg a = some env) : Step cfg v (.own a) { v with env := env }
  | evm {e : PoolEvent (W + 1) (EvTask δ)} {p : TaskPool (W + 1) (EvTask δ)} {env : Env W m δ}
      (hrun : v.env.failed = none) (hp : v.evm.Step e p) (h : v.env.observeEvm e = some env) :
      Step cfg v (.evm e) { v with env := env, evm := p }
  | eng {e : PoolEvent m UserTask} {p : TaskPool m UserTask} {env : Env W m δ}
      (hrun : v.env.failed = none) (hp : v.eng.Step e p) (h : v.env.observeEng e = some env) :
      Step cfg v (.eng e) { v with env := env, eng := p }

/-- The runs of the view. -/
def viewSystem [DecidableEq δ] (cfg : Config) (W m : Nat) :
    Lts.System (View W m δ) (ViewLabel W m δ) where
  init v := v = { env := .init cfg, evm := .init _ _, eng := .init _ _ }
  step := View.Step cfg

/-- A condition on the steps outside the pools. -/
def SimAction.meets (ok : Env W m δ → EnvAction W m δ → Prop) (s : Sim W m δ) : SimAction W m δ → Prop
  | .own a => ok s.env a
  | _ => True

instance (ok : Env W m δ → EnvAction W m δ → Prop) [∀ s a, Decidable (ok s a)] (s : Sim W m δ)
    (a : SimAction W m δ) : Decidable (SimAction.meets ok s a) :=
  match a with
  | .own a => inferInstanceAs (Decidable (ok s.env a))
  | .evm _ | .eng _ => .isTrue trivial

@[inherit_doc SimAction.meets]
def ViewLabel.meets (ok : Env W m δ → EnvAction W m δ → Prop) (v : View W m δ) : ViewLabel W m δ → Prop
  | .own a => ok v.env a
  | _ => True

theorem ViewLabel.meets_mono {ok ok' : Env W m δ → EnvAction W m δ → Prop} (himp : ∀ s a, ok s a → ok' s a)
    (v : View W m δ) (l : ViewLabel W m δ) (h : ViewLabel.meets ok v l) : ViewLabel.meets ok' v l := by
  cases l with
  | own a => exact himp v.env a h
  | evm e | eng e => trivial

/-- The pools are as their own runs leave them. -/
structure Sim.Pools (s : Sim W m δ) : Prop where
  evm : PoolInv s.evmWp
  evmCoded : Coded s.evmWp
  eng : PoolInv s.engWp
  engCoded : Coded s.engWp

/-- The view of a run. -/
def Sim.view (s : Sim W m δ) : View W m δ where
  env := s.env
  evm := s.evmWp.abs
  eng := s.engWp.abs

/-- What a step of a run is in its view. -/
def Sim.label (s : Sim W m δ) : SimAction W m δ → ViewLabel W m δ
  | .own a => .own a
  | .evm a => .evm ((s.evmWp.stepEvent a).elim .tau Prod.snd)
  | .eng a => .eng ((s.engWp.stepEvent a).elim .tau Prod.snd)

theorem Sim.meets_label {ok : Env W m δ → EnvAction W m δ → Prop} {s : Sim W m δ} {a : SimAction W m δ}
    (h : SimAction.meets ok s a) : ViewLabel.meets ok s.view (s.label a) := by
  cases a with
  | own a => exact h
  | evm a | eng a => trivial

section Refinement

variable [DecidableEq δ] {cfg : Config} {ok : Env W m δ → EnvAction W m δ → Prop}
  {s s' : Sim W m δ} {a : SimAction W m δ}

/-- A step of a run: outside the pools, or in one of them. -/
theorem Sim.step_cases (h : s.step cfg a = some s') : s.env.failed = none ∧
    ((∃ b env, a = .own b ∧ s.env.step cfg b = some env ∧ s' = { s with env := env }) ∨
      (∃ b p e env, a = .evm b ∧ s.evmWp.Step b p e ∧ s.env.observeEvm e = some env ∧
        s' = { s with env := env, evmWp := p }) ∨
      ∃ b p e env, a = .eng b ∧ s.engWp.Step b p e ∧ s.env.observeEng e = some env ∧
        s' = { s with env := env, engWp := p }) := by
  unfold Sim.step at h
  split at h
  · cases h
  · refine ⟨Option.not_isSome_iff_eq_none.1 ‹_›, ?_⟩
    cases a with
    | own b =>
        obtain ⟨env, henv, rfl⟩ := Option.map_eq_some_iff.1 h
        exact Or.inl ⟨b, env, rfl, henv, rfl⟩
    | evm b =>
        obtain ⟨⟨p, e⟩, hp, h⟩ := Option.bind_eq_some_iff.1 h
        obtain ⟨env, henv, rfl⟩ := Option.map_eq_some_iff.1 h
        exact Or.inr (Or.inl ⟨b, p, e, env, rfl, (Pool.Step.of hp).2, henv, rfl⟩)
    | eng b =>
        obtain ⟨⟨p, e⟩, hp, h⟩ := Option.bind_eq_some_iff.1 h
        obtain ⟨env, henv, rfl⟩ := Option.map_eq_some_iff.1 h
        exact Or.inr (Or.inr ⟨b, p, e, env, rfl, (Pool.Step.of hp).2, henv, rfl⟩)

omit [DecidableEq δ] in
theorem Sim.Pools.init (cfg : Config) : (Sim.init cfg W m δ).Pools where
  evm := .init _
  evmCoded := .init _
  eng := .init _
  engCoded := .init _

theorem Sim.Pools.step (h : s.Pools) (hs : s.step cfg a = some s') : s'.Pools := by
  obtain ⟨-, ⟨b, env, -, -, rfl⟩ | ⟨b, p, e, env, -, hp, -, rfl⟩ | ⟨b, p, e, env, -, hp, -, rfl⟩⟩ :=
    Sim.step_cases hs
  · exact ⟨h.evm, h.evmCoded, h.eng, h.engCoded⟩
  · exact ⟨h.evm.step hp, h.evmCoded.step h.evm hp, h.eng, h.engCoded⟩
  · exact ⟨h.evm, h.evmCoded, h.eng.step hp, h.engCoded.step h.eng hp⟩

theorem pools_reachable {P : Sim W m δ → SimAction W m δ → Prop}
    (h : Lts.ReachableIf (system cfg W m) P s) : s.Pools :=
  h.invariant (fun s hs => by rw [show s = Sim.init cfg W m δ from hs]; exact .init cfg)
    fun _ _ _ hi _ hs => hi.step hs

/-- A step of a run is a step of its view. -/
theorem Sim.Pools.view_step (h : s.Pools) (hs : s.step cfg a = some s') :
    View.Step cfg s.view (s.label a) s'.view := by
  unfold Sim.step at hs
  split at hs
  · cases hs
  · have hrun : s.env.failed = none := Option.not_isSome_iff_eq_none.1 ‹_›
    cases a with
    | own b =>
        obtain ⟨env, henv, rfl⟩ := Option.map_eq_some_iff.1 hs
        exact .own hrun henv
    | evm b =>
        obtain ⟨⟨p, e⟩, hp, hs⟩ := Option.bind_eq_some_iff.1 hs
        obtain ⟨env, henv, rfl⟩ := Option.map_eq_some_iff.1 hs
        have hlabel : s.label (.evm b) = .evm e := by simp [Sim.label, hp]
        rw [hlabel]
        exact .evm hrun (h.evm.abs_step h.evmCoded (Pool.Step.of hp).2) henv
    | eng b =>
        obtain ⟨⟨p, e⟩, hp, hs⟩ := Option.bind_eq_some_iff.1 hs
        obtain ⟨env, henv, rfl⟩ := Option.map_eq_some_iff.1 hs
        have hlabel : s.label (.eng b) = .eng e := by simp [Sim.label, hp]
        rw [hlabel]
        exact .eng hrun (h.eng.abs_step h.engCoded (Pool.Step.of hp).2) henv

/-- **A run refines its view.** -/
theorem sim_refines (cfg : Config) (W m : Nat) (ok : Env W m δ → EnvAction W m δ → Prop) :
    Lts.Refines (system cfg W m) (viewSystem cfg W m) (SimAction.meets ok) (ViewLabel.meets ok)
      Sim.view where
  init := fun s hs => by rw [show s = Sim.init cfg W m δ from hs]; rfl
  step := fun s a s' hr hok hs =>
    Or.inr ⟨s.label a, Sim.meets_label hok, (pools_reachable hr).view_step hs⟩

end Refinement

end ComplexSim.Engine
