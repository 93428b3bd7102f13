import ComplexSim.Engine.Rest
import ComplexSim.Lib.Effects

/-!
# A simulation and its program

What a run of the engine leaves open is what its handlers, its activities and its termination
function do. `Program` gives them as functions: of a state that they share, of the event or the
task, and of the tick. `Play` is a run with such a program. A handler or a task acts on the
state when it begins; its requests are made one by one while it runs, between the steps of all
the others.

`Script.done` only records the jobs begun: no step reads it.
-/

namespace ComplexSim.Engine

open Workerpool Events

variable {W m : Nat} {δ σ : Type}

/-- What the program is asked to do: the handler of an event, or a task of an activity at a tick. -/
inductive Job (δ : Type) where
  | handler (x : Due δ)
  | block (x : UserTask) (tick : Int)
  deriving DecidableEq, Repr

/-- The tick of a job. -/
def Job.tick : Job δ → Int
  | .handler x => x.time
  | .block _ tick => tick

/-- The order in which the jobs of a run come: `AFTER_STEP` tasks after all else of their tick. -/
def Job.stage : Job δ → Int
  | .handler x => 2 * x.time
  | .block x tick => match x.type with
      | .user => 2 * tick
      | .afterStep => 2 * tick + 1

/-- The event of a handler. -/
def Job.event? : Job δ → Option (Due δ)
  | .handler x => some x
  | .block _ _ => none

/-- A program: what it schedules before `cs_sim_start`, its handlers and activities, each with the
requests that it makes, and its termination function. -/
structure Program (δ σ : Type) where
  start : σ
  initial : List (Due δ)
  job : Job δ → σ → σ × List (Due δ)
  stops : Int → σ → Bool

/-- Where a program is: its state, and the requests that each of its threads has still to make. -/
structure Script (W m : Nat) (δ σ : Type) where
  user : σ
  todo : Source W m → List (Due δ)
  done : List (Job δ)

/-- The program before its first request. -/
def Script.init (prog : Program δ σ) : Script W m δ σ where
  user := prog.start
  todo := fun src => if src = .main then prog.initial else []
  done := []

/-- A job begins. -/
@[simps]
def Script.begin (c : Script W m δ σ) (prog : Program δ σ) (src : Source W m) (j : Job δ) : Script W m δ σ where
  user := (prog.job j c.user).1
  todo := Function.update c.todo src (prog.job j c.user).2
  done := c.done ++ [j]

/-- An event with a handler. -/
def Config.handles (cfg : Config) (ev : CsEvent δ) : Bool := ev.etype.any (· ∈ cfg.handlers)

/-- The event whose handler begins when the event worker on `w` goes on. -/
def Env.launches (cfg : Config) (s : Env W m δ) (w : Fin (W + 1)) : Option (Due δ) :=
  match s.slices w with
  | none => none
  | some r =>
      if r.handling.isNone ∧ (r.c : Int) < r.data.numEvents then
        match r.curEv with
        | [] => none
        | ev :: _ => if cfg.handles ev then some ⟨ev, r.data.scheduledAt⟩ else none
      else none

section Scripts

variable [DecidableEq δ]

/-- The steps that agree with the program: it makes its requests in order and has made them when a
job returns and when `cs_sim_start` is called, and its termination function is asked. -/
def Script.Allows (c : Script W m δ σ) (prog : Program δ σ) (s : Env W m δ) : ViewLabel W m δ → Prop
  | .own (.schedule src ev time) => (c.todo src).head? = some ⟨ev, time⟩
  | .own .simStart => c.todo .main = []
  | .own (.engine b) => s.engine.pc = .term → b = prog.stops s.timer.timer.clock c.user
  | .own (.slice w) => c.todo (.handler w) = []
  | .eng (.finished v _) => c.todo (.activity v) = []
  | _ => True

instance (c : Script W m δ σ) (prog : Program δ σ) (s : Env W m δ) (l : ViewLabel W m δ) :
    Decidable (c.Allows prog s l) := by
  unfold Script.Allows
  split <;> infer_instance

/-- The program after a step. -/
def Script.next (c : Script W m δ σ) (prog : Program δ σ) (cfg : Config) (s : Env W m δ) :
    ViewLabel W m δ → Script W m δ σ
  | .own (.schedule src _ _) => { c with todo := Function.update c.todo src (c.todo src).tail }
  | .own (.slice w) => (s.launches cfg w).elim c fun x => c.begin prog (.handler w) (.handler x)
  | .eng (.started v _ (some x)) => c.begin prog (.activity v) (.block x s.timer.timer.clock)
  | _ => c

/-- A run with a program. -/
structure Play (W m : Nat) (δ σ : Type) where
  sim : Sim W m δ
  script : Script W m δ σ

def Play.init (prog : Program δ σ) (cfg : Config) (W m : Nat) : Play W m δ σ where
  sim := .init cfg W m δ
  script := .init prog

/-- One step of a run with a program. -/
def Play.step (prog : Program δ σ) (cfg : Config) (p : Play W m δ σ) (a : SimAction W m δ) :
    Option (Play W m δ σ) :=
  if p.script.Allows prog p.sim.env (p.sim.label a) then
    (p.sim.step cfg a).map fun sim =>
      { sim := sim, script := p.script.next prog cfg p.sim.env (p.sim.label a) }
  else none

/-- The runs of a simulation with its program. -/
def playSystem (prog : Program δ σ) (cfg : Config) (W m : Nat) :
    Lts.System (Play W m δ σ) (SimAction W m δ) :=
  .ofFn (· = Play.init prog cfg W m) (Play.step prog cfg)

/-- The same runs, with each pool replaced by its specification. -/
def playView (prog : Program δ σ) (cfg : Config) (W m : Nat) :
    Lts.System (View W m δ × Script W m δ σ) (ViewLabel W m δ) where
  init p := p = ({ env := .init cfg, evm := .init _ _, eng := .init _ _ }, .init prog)
  step p l p' := p.1.Step cfg l p'.1 ∧ p.2.Allows prog p.1.env l ∧ p'.2 = p.2.next prog cfg p.1.env l

variable {prog : Program δ σ} {cfg : Config} {ok : Env W m δ → EnvAction W m δ → Prop}

theorem Play.step_cases {p p' : Play W m δ σ} {a : SimAction W m δ} (h : p.step prog cfg a = some p') :
    p.script.Allows prog p.sim.env (p.sim.label a) ∧ p.sim.step cfg a = some p'.sim ∧
      p'.script = p.script.next prog cfg p.sim.env (p.sim.label a) := by
  unfold Play.step at h
  split at h
  · obtain ⟨sim, hsim, rfl⟩ := Option.map_eq_some_iff.1 h
    exact ⟨‹_›, hsim, rfl⟩
  · cases h

/-- A run with a program is a run. -/
theorem play_refines_sim (prog : Program δ σ) (cfg : Config) (W m : Nat)
    (ok : Env W m δ → EnvAction W m δ → Prop) :
    Lts.Refines (playSystem prog cfg W m) (system cfg W m) (fun p a => SimAction.meets ok p.sim a)
      (SimAction.meets ok) Play.sim where
  init := fun p hp => by rw [show p = Play.init prog cfg W m from hp]; rfl
  step := fun p a p' _ hok hs => by
    obtain ⟨-, hsim, -⟩ := Play.step_cases hs
    exact Or.inr ⟨a, hok, hsim⟩

/-- **A run with a program refines its view.** -/
theorem play_refines (prog : Program δ σ) (cfg : Config) (W m : Nat)
    (ok : Env W m δ → EnvAction W m δ → Prop) :
    Lts.Refines (playSystem prog cfg W m) (playView prog cfg W m) (fun p a => SimAction.meets ok p.sim a)
      (fun p l => ViewLabel.meets ok p.1 l) (fun p => (p.sim.view, p.script)) where
  init := fun p hp => by rw [show p = Play.init prog cfg W m from hp]; rfl
  step := fun p a p' hr hok hs => by
    obtain ⟨hallows, hsim, hnext⟩ := Play.step_cases hs
    have hpools := pools_reachable ((play_refines_sim prog cfg W m ok).reachable hr)
    exact Or.inr ⟨p.sim.label a, Sim.meets_label hok, hpools.view_step hsim, hallows, hnext⟩

/-- The view of a run with a program is a view of a run. -/
theorem playView_refines (prog : Program δ σ) (cfg : Config) (W m : Nat)
    (ok : View W m δ → ViewLabel W m δ → Prop) :
    Lts.Refines (playView prog cfg W m) (viewSystem cfg W m) (fun p l => ok p.1 l) ok Prod.fst where
  init := fun p hp => by rw [show p = _ from hp]; rfl
  step := fun p l p' _ hok hs => Or.inr ⟨l, hok, hs.1⟩

end Scripts

end ComplexSim.Engine
