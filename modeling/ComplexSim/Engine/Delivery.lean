import ComplexSim.Engine.Alternation
import ComplexSim.Engine.Ledger

/-!
# Events reach their handlers

An event that is scheduled for a tick still to be popped is popped in its turn, and no other
way into the tree leaves events behind (`none_stranded`). Where handlers and activities
schedule for later ticks only, every event is thrown once, at its tick.
-/

namespace ComplexSim.Engine

open Workerpool Events

variable {W m : Nat} {δ : Type}

/-- The run of one tick: the program schedules an event for it, and its handler schedules another
one for `time`. -/
def oneTick (time : Int) : List (SimAction 1 1 Unit) :=
  List.flatten [
    [.own (.schedule .main ⟨some "tick", ()⟩ 1)], startController 1, List.replicate 4 (.own .ctl),
    [.own .simStart], List.replicate 10 (.own (.engine false)), List.replicate 4 (.own .ctl),
    [.evm (.callEnqueue (.task ctlWorker) (.slice ⟨0, 1, [⟨some "tick", ()⟩], 1⟩)), .evm (.call (.task ctlWorker)),
      .evm (.create (.task ctlWorker) 2)],
    List.replicate 4 (.evm (.call (.task ctlWorker))), [.own .ctl, .evm (.callWait (.task ctlWorker) 2)],
    List.replicate 7 (.evm .controller), List.replicate 3 (.evm (.worker sliceWorker)),
    [.own (.slice sliceWorker), .own (.schedule (.handler sliceWorker) ⟨some "tick", ()⟩ time),
      .own (.slice sliceWorker), .evm (.taskReturn sliceWorker)],
    List.replicate 3 (.evm (.worker sliceWorker)), List.replicate 2 (.evm (.call (.task ctlWorker))),
    [.own .ctl, .own .ctl]]

section Stranded

variable [DecidableEq δ]

/-- **No event is stranded** in any run whose requests are for ticks that the controller has not
popped: when the completion of a tick is signalled, the tree has lists of later ticks only; so
what the engine finds when it looks for more events is still to be popped. -/
theorem none_stranded (cfg : Config) (s : Sim W m δ)
    (h : Lts.ReachableIf (system cfg W m) (SimAction.meets Env.AboveFloor) s) :
    (∀ l ∈ s.env.evm.evTree.items, s.env.evm.lastCompletion < l.scheduledAt) ∧
    (s.env.engine.pc = .moreEvents →
      ∀ l ∈ s.env.evm.evTree.items, s.env.timer.timer.clock < l.scheduledAt) := by
  have hview := (sim_refines cfg W m Env.AboveFloor).reachable h
  have hone : ∀ (v : View W m δ) l, ViewLabel.meets Env.AboveFloor v l →
      ViewLabel.meets Env.StartsAtOne v l := by
    apply ViewLabel.meets_mono
    intro s a hl
    cases a with
    | preStart r => exact hl
    | _ => trivial
  have htimed : s.view.Timed := timed_reachable hone hview
  have hpunctual : s.env.Punctual :=
    punctual_reachable hone (fun _ _ _ _ _ hl => hl) hview
  have hlater : ∀ l ∈ s.env.evm.evTree.items, s.env.evm.lastCompletion < l.scheduledAt := by
    intro l hl
    obtain ⟨x, hx, htime⟩ := EvTree.pending_of_mem hl
    have hfloor := (Env.floor_le htimed.inv).1
    have hx := hpunctual.pending x hx
    have hfloor : s.env.evm.lastCompletion ≤ s.env.floor := hfloor
    omega
  refine ⟨hlater, fun hpc l hl => ?_⟩
  have hbehind : s.env.clockwork.engine = .behind := congrArg EnginePc.stage hpc
  have hlast : s.env.evm.lastCompletion = s.env.timer.timer.clock := (htimed.inv.behind hbehind).1
  rw [← hlast]
  exact hlater l hl

end Stranded

/-- A handler schedules for the next tick. -/
theorem none_stranded_one : ∃ s : Sim 1 1 Unit,
    Lts.ReachableIf (system ⟨.eventDriven, [], ["tick"]⟩ 1 1) (SimAction.meets Env.AboveFloor) s ∧
    s.env.evm.lastCompletion = 1 ∧ s.env.evm.evTree.items.map (·.scheduledAt) = [2] ∧
    ∀ l ∈ s.env.evm.evTree.items, 1 < l.scheduledAt := by
  obtain ⟨s, hs, hp⟩ := Lts.exec_of_any
    (f := Lts.guarded (SimAction.meets Env.AboveFloor) (Sim.step ⟨.eventDriven, [], ["tick"]⟩))
    (s := Sim.init ⟨.eventDriven, [], ["tick"]⟩ 1 1 Unit)
    (p := fun s => decide (s.env.evm.lastCompletion = 1 ∧ s.env.evm.evTree.items.map (·.scheduledAt) = [2]))
    (l := oneTick 2) (by decide +kernel)
  have hreach : Lts.ReachableIf (system ⟨.eventDriven, [], ["tick"]⟩ 1 1) (SimAction.meets Env.AboveFloor) s :=
    ⟨_, rfl, Lts.exec_guarded_run hs⟩
  obtain ⟨hlast, htimes⟩ := of_decide_eq_true hp
  exact ⟨s, hreach, hlast, htimes, hlast ▸ (none_stranded _ s hreach).1⟩

/-- A handler schedules for its own tick: the list that the tree gets is of a tick that is over
when its completion is signalled. -/
theorem own_tick_strands : ∃ s : Sim 1 1 Unit,
    Lts.ReachableIf (system ⟨.eventDriven, [], ["tick"]⟩ 1 1) (SimAction.meets Env.StartsAtOne) s ∧
    s.env.evm.lastCompletion = 1 ∧ ¬ ∀ l ∈ s.env.evm.evTree.items, s.env.evm.lastCompletion < l.scheduledAt := by
  obtain ⟨s, hs, hp⟩ := Lts.exec_of_any
    (f := Lts.guarded (SimAction.meets Env.StartsAtOne) (Sim.step ⟨.eventDriven, [], ["tick"]⟩))
    (s := Sim.init ⟨.eventDriven, [], ["tick"]⟩ 1 1 Unit)
    (p := fun s => decide (s.env.evm.lastCompletion = 1 ∧
      ¬ ∀ l ∈ s.env.evm.evTree.items, s.env.evm.lastCompletion < l.scheduledAt))
    (l := oneTick 1) (by decide +kernel)
  exact ⟨s, ⟨_, rfl, Lts.exec_guarded_run hs⟩, of_decide_eq_true hp⟩

end ComplexSim.Engine
