import ComplexSim.Engine.ActivityPool
import ComplexSim.Engine.Timing

/-!
# Engine and controller do not wait for each other

The engine waits for the controller in `wait_event_completion` and in `cs_time_sync`, the
controller for the engine in `cs_time_sync`. Where events are raised from tick 1 on they
never wait at once. The controller that skips a tick before its start time does not signal
the completion of that tick, for which the engine waits.
-/

namespace ComplexSim.Engine

open Workerpool Events

variable {W m : Nat} {δ : Type}

namespace Env

/-- The engine and the controller wait for each other. -/
def WaitsBoth (s : Env W m δ) : Prop :=
  s.timer.place .controller = .blocked ∧ (s.timer.place .engine = .blocked ∨ s.evm.waitCond = .blocked)

end Env

/-- The program calls `cs_evm_start_controller`, and the controller begins. -/
def startController (r : Int) : List (SimAction 1 1 Unit) :=
  List.flatten [
    [.own (.preStart r), .own (.engine false), .evm .start, .evm (.callEnqueue (.ext 0) .controller),
      .evm (.call (.ext 0)), .evm (.create (.ext 0) 1)],
    List.replicate 4 (.evm (.call (.ext 0))), List.replicate 6 (.evm .controller),
    List.replicate 3 (.evm (.worker 0))]

section Results

variable [DecidableEq δ]

/-- **Engine and controller do not wait for each other** in any run whose controller raises events
from tick 1 on. -/
theorem engine_controller_apart (cfg : Config) (s : Sim W m δ)
    (h : Lts.ReachableIf (system cfg W m) (SimAction.meets Env.StartsAtOne) s) : ¬ s.env.WaitsBoth := by
  have hview := (sim_refines cfg W m Env.StartsAtOne).reachable h
  have htimed : s.view.Timed := timed_reachable (fun _ _ hl => hl) hview
  rintro ⟨hctl, hengine⟩
  obtain ⟨hout, hwait⟩ := htimed.inv.apart hctl
  rcases hengine with hengine | hengine
  · exact hout hengine
  · exact hwait hengine

/-- A run with one worker for the events and one for the activities, started with start time 1: the controller waits
at the barrier, and the engine does not wait with it. -/
theorem engine_controller_apart_one : ∃ s : Sim 1 1 Unit,
    Lts.ReachableIf (system ⟨.activityScan, [], []⟩ 1 1) (SimAction.meets Env.StartsAtOne) s ∧
    s.env.timer.place .controller = .blocked ∧ ¬ s.env.WaitsBoth := by
  obtain ⟨s, hs, hp⟩ := Lts.exec_of_any
    (f := Lts.guarded (SimAction.meets Env.StartsAtOne) (Sim.step ⟨.activityScan, [], []⟩))
    (s := Sim.init ⟨.activityScan, [], []⟩ 1 1 Unit)
    (p := fun s => decide (s.env.timer.place .controller = .blocked))
    (l := startController 1 ++ List.replicate 4 (.own .ctl)) (by decide +kernel)
  have hreach : Lts.ReachableIf (system ⟨.activityScan, [], []⟩ 1 1) (SimAction.meets Env.StartsAtOne) s :=
    ⟨_, rfl, Lts.exec_guarded_run hs⟩
  exact ⟨s, hreach, of_decide_eq_true hp, engine_controller_apart _ s hreach⟩

section Stuck

variable {s : Sim W m δ}

/-- Engine and controller wait, and nothing else runs. -/
structure Sim.Idle (s : Sim W m δ) : Prop where
  engine : s.env.engine.pc = .inCompletion
  waitCond : s.env.evm.waitCond = .blocked
  ctl : s.env.ctl.pc = .inSync
  place : s.env.timer.place .controller = .blocked
  slices : ∀ w, s.env.slices w = none
  blocks : ∀ v, s.env.blocks v = none

theorem Sim.Idle.observeEvm (h : s.Idle) {e : PoolEvent (W + 1) (EvTask δ)} (he : PoolEvent.opens e = true) :
    s.env.observeEvm e = none := by
  cases e with
  | enqueueCall k x =>
      unfold Env.observeEvm
      split <;> simp_all [h.engine, h.ctl]
  | finished w t => simp [Env.observeEvm, h.slices w, h.ctl]
  | startRet r | shutdownCall => simp [Env.observeEvm, h.engine]
  | statusCall k | waitCall k id => simp [Env.observeEvm, h.ctl]
  | tau | statusRet k st | enqueueRet k r | waitRet k id | started w t x | shutdownRet r => cases he

omit [DecidableEq δ] in
theorem Sim.Idle.observeEng (h : s.Idle) {e : PoolEvent m UserTask} (he : PoolEvent.opens e = true) :
    s.env.observeEng e = none := by
  cases e with
  | finished v t => simp [Env.observeEng, h.blocks v]
  | startRet r | shutdownCall | statusCall k | waitCall k id | enqueueCall k x =>
      simp [Env.observeEng, h.engine]
  | tau | statusRet k st | enqueueRet k r | waitRet k id | started w t x | shutdownRet r => cases he

/-- Then no step is possible, where the pools wait for calls. -/
theorem Sim.Idle.stuck (h : s.Idle) (cfg : Config)
    (hevm : ∀ a p e, s.evmWp.stepEvent a = some (p, e) → PoolEvent.opens e = true)
    (heng : ∀ a p e, s.engWp.stepEvent a = some (p, e) → PoolEvent.opens e = true) (a : SimAction W m δ) :
    s.step cfg a = none := by
  unfold Sim.step
  split
  · rfl
  cases a with
  | own b =>
      rw [Option.map_eq_none_iff]
      cases b with
      | preStart r | simStart | fini => simp [Env.step, Env.mainStep, h.engine]
      | engine b => simp [Env.step, Env.engineStep, h.engine, h.waitCond]
      | ctl => simp [Env.step, Env.ctlStep, h.ctl, Barrier.leave, h.place]
      | slice w => simp [Env.step, Env.sliceStep, h.slices w]
      | schedule src ev time =>
          have hno : s.env.sourceRuns src = false := by
            cases src with
            | main => simp [Env.sourceRuns, h.engine]
            | handler w => simp [Env.sourceRuns, h.slices w]
            | activity v => simp [Env.sourceRuns, h.blocks v]
          simp [Env.step, Env.scheduleStep, hno]
  | evm a =>
      rw [Option.bind_eq_none_iff]
      intro ⟨p, e⟩ hp
      simp [h.observeEvm (hevm a p e hp)]
  | eng a =>
      rw [Option.bind_eq_none_iff]
      intro ⟨p, e⟩ hp
      simp [h.observeEng (heng a p e hp)]

end Stuck

end Results

/-- The controller is started with start time 2. It skips tick 1 and waits for tick 2; the engine
waits for the completion of tick 1, and no thread can do anything. -/
theorem start_at_two_deadlocks : ∃ s : Sim 1 1 Unit,
    Lts.Reachable (system ⟨.activityScan, [], []⟩ 1 1) s ∧ s.env.evm.stop = false ∧ s.env.WaitsBoth ∧
    ∀ a, s.step ⟨.activityScan, [], []⟩ a = none := by
  obtain ⟨s, hs, hp⟩ := Lts.exec_of_any (f := Sim.step ⟨.activityScan, [], []⟩)
    (s := Sim.init ⟨.activityScan, [], []⟩ 1 1 Unit)
    (p := fun s => decide ((s.env.engine.pc = .inCompletion ∧ s.env.evm.waitCond = .blocked ∧
      s.env.ctl.pc = .inSync ∧ s.env.timer.place .controller = .blocked ∧ (∀ w, s.env.slices w = none) ∧
      (∀ v, s.env.blocks v = none)) ∧ s.env.evm.stop = false ∧
      (s.evmWp.calls (.ext 0) = .idle ∧ (∀ w, s.evmWp.calls (.task w) = .idle) ∧
        s.evmWp.controllerBehaviour.isNone ∧ (∀ w, (s.evmWp.workerBehaviour w).isNone) ∧
        s.evmWp.shutdownStep.isNone) ∧
      s.engWp.calls (.ext 0) = .idle ∧ s.engWp.controllerBehaviour.isNone ∧
        (∀ w, (s.engWp.workerBehaviour w).isNone) ∧ s.engWp.shutdownStep.isNone))
    (l := List.flatten [startController 2, List.replicate 4 (.own .ctl), [.own .simStart],
      List.replicate 11 (.own (.engine false)), List.replicate 4 (.own .ctl)]) (by decide +kernel)
  obtain ⟨⟨hengine, hwait, hctl, hplace, hslices, hblocks⟩, hstop, ⟨hext, htask, hevmCtl, hevmWorkers, hevmShut⟩,
    hmain, hengCtl, hengWorkers, hengShut⟩ := of_decide_eq_true hp
  have hreach : Lts.Reachable (system ⟨.activityScan, [], []⟩ 1 1) s := Lts.exec_reachable rfl hs
  have hview := (sim_refines ⟨.activityScan, [], []⟩ 1 1 fun _ _ => True).reachable
    (hreach.mono fun _ a _ => by cases a <;> trivial)
  obtain ⟨spot, rem, hevm⟩ := evmLinked_reachable (by decide) hview
  obtain ⟨spot', heng⟩ := engLinked_reachable hview
  have hpools := pools_reachable hreach
  have hidle : s.Idle := ⟨hengine, hwait, hctl, hplace, hslices, hblocks⟩
  refine ⟨s, hreach, hstop, ⟨hplace, .inr hwait⟩, hidle.stuck _ (fun a p e he => ?_) fun a p e he => ?_⟩
  · refine Pool.opens_of_idle (fun k => ?_) (by simpa using hevmCtl) (by simpa using hevmWorkers)
      (by simpa using hevmShut) he
    cases k with
    | ext k =>
        cases k with
        | zero => exact hext
        | succ k => exact hpools.evmCoded.idle (hevm.idleExt k)
    | task w => exact htask w
  · refine Pool.opens_of_idle (fun k => ?_) (by simpa using hengCtl) (by simpa using hengWorkers)
      (by simpa using hengShut) he
    by_cases hk : k = .ext 0
    · rw [hk]
      exact hmain
    · exact hpools.engCoded.idle (heng.others k hk)

end ComplexSim.Engine
