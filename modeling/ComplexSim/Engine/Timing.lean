import ComplexSim.Engine.Clockwork
import ComplexSim.Engine.Steps

/-!
# Engine and controller keep step

A run maps to the handshake `Clockwork`, step by step, as long as the controller was not
started with a start time above 1. So its invariant holds in every state of such a run,
and the two threads never wait for each other.
-/

namespace ComplexSim.Engine

open Workerpool Events

variable {W m : Nat} {δ : Type}

/-- The stage of the engine at a place. -/
def EnginePc.stage : EnginePc → EngineStage
  | .main | .start _ _ | .setNsync | .firstClock | .evmRunning | .wpStart | .loop .afterStep _
  | .term | .moreEvents | .sync => .behind
  | .inSync => .inSync
  | .clock => .passed
  | .loop .user _ | .completion => .late
  | .inCompletion => .waiting
  | .stopController => .stopping
  | .timeStop => .halting
  | .closing => .closing
  | .returned | .fini _ | .done => .stopped

/-- The stage of the controller at a place. -/
def CtlPc.stage : CtlPc δ → CtlStage
  | .off | .begin | .firstClock | .setRunning | .sync => .ready
  | .inSync => .inSync
  | .clock => .ticked
  | .shouldStop => .testing
  | .pop | .batch _ | .signal => .busy
  | .setNotRunning | .returned | .gone => .left

namespace Env

/-- The handshake in a run. -/
def clockwork (s : Env W m δ) : Clockwork where
  timer := s.timer
  lastCompletion := s.evm.lastCompletion
  stop := s.evm.stop
  waitCond := s.evm.waitCond
  engine := s.engine.pc.stage
  engineTime := s.engine.curTime
  ctl := s.ctl.pc.stage
  ctlTime := s.ctl.curTime

/-- The controller raises events from tick 1 on. -/
structure FromOne (s : Env W m δ) : Prop where
  startTime : s.evm.startTime ≤ 1
  start : s.ctl.start ≤ 1
  request : ∀ byMain r, s.engine.pc = .start byMain (.startTime r) → r ≤ 1

/-- The program starts the controller with a start time of at most 1, if it does. -/
def StartsAtOne (_ : Env W m δ) : EnvAction W m δ → Prop
  | .preStart r => r ≤ 1
  | _ => True

instance (s : Env W m δ) (a : EnvAction W m δ) : Decidable (StartsAtOne s a) :=
  match a with
  | .preStart r => inferInstanceAs (Decidable (r ≤ 1))
  | .simStart | .fini | .engine _ | .ctl | .slice _ | .schedule _ _ _ => .isTrue trivial

variable {cfg : Config} {s s' : Env W m δ}

/-- A step that leaves the handshake alone. -/
theorem clockwork_stay (h : s'.clockwork = s.clockwork) : s.clockwork.Step s'.clockwork := by
  rw [h]
  exact .stay

/-- The engine goes to a place of the same stage. -/
theorem setEngine_clockwork {pc : EnginePc} (h : pc.stage = s.engine.pc.stage) :
    (s.setEngine pc).clockwork = s.clockwork := by
  simp [clockwork, h]

/-- The controller goes to a place of the same stage. -/
theorem setCtl_clockwork {pc : CtlPc δ} (h : pc.stage = s.ctl.pc.stage) :
    (s.setCtl pc).clockwork = s.clockwork := by
  simp [clockwork, h]

theorem loop_stage (atype : ActivityType) (q q' : LoopPc) :
    (EnginePc.loop atype q).stage = (EnginePc.loop atype q').stage := by
  cases atype <;> rfl

theorem afterLoop_stage (atype : ActivityType) (q : LoopPc) :
    (afterLoop atype).stage = (EnginePc.loop atype q).stage := by
  cases atype <;> rfl

theorem startReturn_stage (byMain : Bool) : (startReturn byMain).stage = .behind := by
  cases byMain <;> rfl

theorem EngineStep.clockwork {b : Bool} (h : EngineStep cfg s b s') :
    s.clockwork.Step s'.clockwork := by
  have hat : ∀ {pc}, s.engine.pc = pc → s.clockwork.engine = pc.stage :=
    fun h => congrArg EnginePc.stage h
  cases h with
  | loopCrash | closingFails => exact .stay
  | evmRunning hpc =>
      refine clockwork_stay (setEngine_clockwork ?_)
      split <;> rw [hpc] <;> rfl
  | noActivities hpc _ | goOn hpc _ => exact clockwork_stay (setEngine_clockwork (by rw [hpc]; rfl))
  | loopWait atype _ hpc =>
      exact clockwork_stay (setEngine_clockwork (by rw [hpc]; exact loop_stage _ _ _))
  | loopSkip atype hpc _ =>
      exact clockwork_stay (setEngine_clockwork (by rw [hpc]; exact afterLoop_stage _ _))
  | loopEnd atype hpc =>
      exact clockwork_stay (setEngine_clockwork (by rw [hpc]; exact afterLoop_stage _ _))
  | loopFork atype _ _ hpc _ _ _ =>
      refine clockwork_stay ?_
      simp only [Env.clockwork, hpc]
      rw [loop_stage]
  | startTime _ _ hpc | terminate hpc _ _ | moreEvents hpc =>
      exact clockwork_stay (by simp [Env.clockwork, hpc, EnginePc.stage])
  | setNsync hpc =>
      have hstep := Clockwork.Step.setNsync (hat hpc)
      simpa [Env.clockwork, hpc, EnginePc.stage] using hstep
  | firstClock hpc =>
      have hstep := Clockwork.Step.engineTime (csGetClock s.timer.timer) (hat hpc)
      simpa [Env.clockwork, hpc, EnginePc.stage] using hstep
  | pass b' r hpc henter => exact Clockwork.Step.enginePass b' r (hat hpc) henter
  | arrive b' hpc henter => exact Clockwork.Step.engineArrive b' (hat hpc) henter
  | leave b' r hpc hleave => exact Clockwork.Step.engineLeave b' r (hat hpc) hleave
  | clockStop hpc _ => exact Clockwork.Step.engineClock .stopping (hat hpc) (Or.inr rfl)
  | clockScan hpc _ _ => exact Clockwork.Step.engineClock .late (hat hpc) (Or.inl rfl)
  | clockDriven hpc _ _ => exact Clockwork.Step.engineClock .late (hat hpc) (Or.inl rfl)
  | wait hpc hlt => exact Clockwork.Step.wait (hat hpc) hlt
  | completed hpc hge => exact Clockwork.Step.completed (hat hpc) hge
  | woken hpc hwoken => exact Clockwork.Step.woken (hat hpc) hwoken
  | stopController hpc => exact Clockwork.Step.stopController (hat hpc)
  | timeStop hpc => exact Clockwork.Step.timeStop (hat hpc)
  | closing hpc _ => exact Clockwork.Step.close (hat hpc)
  | finiRunning hpc =>
      refine clockwork_stay (setEngine_clockwork ?_)
      split <;> rw [hpc] <;> rfl
  | finiStop hpc =>
      have hstep := Clockwork.Step.finiStop (hat hpc)
      simpa [Env.clockwork, hpc, EnginePc.stage] using hstep

theorem CtlStep.clockwork (h : CtlStep s s') (hone : s.FromOne) : s.clockwork.Step s'.clockwork := by
  have hat : ∀ {pc}, s.ctl.pc = pc → s.clockwork.ctl = pc.stage :=
    fun h => congrArg CtlPc.stage h
  have hret : ∀ r : Int, (if r < 0 then CtlPc.setNotRunning else .clock : CtlPc δ).stage =
      if r < 0 then .left else .ticked := fun r => by split <;> rfl
  cases h with
  | «begin» hpc | setRunning hpc | popNone hpc _ | pop _ hpc _ _ | setNotRunning hpc =>
      exact clockwork_stay (by simp [Env.clockwork, hpc, CtlPc.stage])
  | popCrash _ _ _ _ => exact .stay
  | batchWait _ hpc | batchEnd hpc =>
      exact clockwork_stay (setCtl_clockwork (by rw [hpc]; rfl))
  | firstClock hpc =>
      have hstep := Clockwork.Step.ctlTime s.timer.timer.clock (hat hpc)
      simpa [Env.clockwork, hpc, CtlPc.stage] using hstep
  | pass b' r hpc henter =>
      have hstep := Clockwork.Step.ctlPass b' r (hat hpc) henter
      simpa [Env.clockwork, hret] using hstep
  | arrive b' hpc henter => exact Clockwork.Step.ctlArrive b' (hat hpc) henter
  | leave b' r hpc hleave =>
      have hstep := Clockwork.Step.ctlLeave b' r (hat hpc) hleave
      simpa [Env.clockwork, hret] using hstep
  | clock hpc => exact Clockwork.Step.ctlClock (hat hpc)
  | stops hpc hstop => exact Clockwork.Step.stops (hat hpc) hstop
  | early hpc _ hlt => exact Clockwork.Step.early (hat hpc) (lt_of_lt_of_le hlt hone.start)
  | goOn hpc hstop _ => exact Clockwork.Step.goOn (hat hpc) hstop
  | signal hpc => exact Clockwork.Step.signal (hat hpc)

theorem SliceStep.clockwork {w : Fin (W + 1)} (h : SliceStep cfg s w s') :
    s'.clockwork = s.clockwork := by
  cases h <;> rfl

/-- A step outside the pools is a step of the handshake. -/
theorem clockwork_step {a : EnvAction W m δ} (h : s.step cfg a = some s') (hone : s.FromOne) :
    s.clockwork.Step s'.clockwork := by
  cases a with
  | preStart r | simStart | fini =>
      obtain ⟨hpc, rfl⟩ := mainStep_cases h
      exact clockwork_stay (setEngine_clockwork (by rw [hpc]; rfl))
  | engine b => exact (EngineStep.of h).clockwork
  | ctl => exact (CtlStep.of h).clockwork hone
  | slice w => exact clockwork_stay (SliceStep.of h).clockwork
  | schedule src ev time =>
      obtain ⟨-, rfl⟩ := scheduleStep_cases h
      exact .stay

/-- An event of the pool of the event manager leaves the handshake alone. -/
theorem EvmStep.clockwork [DecidableEq δ] {e : PoolEvent (W + 1) (EvTask δ)} (h : EvmStep s e s') :
    s'.clockwork = s.clockwork := by
  cases h with
  | tau | sliceStarts | sliceEnds => rfl
  | startFailed byMain _ hpc _ | enqueued byMain _ hpc =>
      exact setEngine_clockwork (by rw [hpc]; exact startReturn_stage byMain)
  | start _ _ hpc _ | enqueueController _ hpc | shutdownCall _ hpc _ | shutdownRet _ _ hpc _ =>
      exact setEngine_clockwork (by rw [hpc]; rfl)
  | controllerStarts _ _ hpc => simp [Env.clockwork, hpc, CtlPc.stage]
  | controllerEnds _ _ _ _ hpc | batch _ _ _ hpc _ => exact setCtl_clockwork (by rw [hpc]; rfl)

/-- An event of the pool of the engine leaves the handshake alone. -/
theorem EngStep.clockwork {e : PoolEvent m UserTask} (h : EngStep s e s') :
    s'.clockwork = s.clockwork := by
  cases h with
  | tau | blockStarts | blockEnds => rfl
  | start _ hpc _ _ | shutdownCall _ hpc _ => exact setEngine_clockwork (by rw [hpc]; rfl)
  | shutdownRet k _ hpc _ =>
      refine setEngine_clockwork ?_
      split <;> rw [hpc] <;> rfl
  | loop atype j j' _ hpc _ => exact setEngine_clockwork (by rw [hpc]; exact loop_stage _ _ _)

section FromOne

theorem FromOne.init (cfg : Config) : (Env.init cfg : Env W m δ).FromOne where
  startTime := by simp [Env.init]
  start := by simp [Env.init]
  request := by simp [Env.init]

/-- No start time changes. -/
theorem FromOne.keep (h : s.FromOne) (hstart : s'.evm.startTime = s.evm.startTime)
    (hctl : s'.ctl.start = s.ctl.start)
    (hpc : s'.engine.pc = s.engine.pc ∨ ∀ byMain r, s'.engine.pc ≠ .start byMain (.startTime r)) :
    s'.FromOne where
  startTime := hstart ▸ h.startTime
  start := hctl ▸ h.start
  request := fun byMain r hr => by
    rcases hpc with hpc | hpc
    · exact h.request byMain r (hpc ▸ hr)
    · exact absurd hr (hpc byMain r)

theorem FromOne.engineStep {b : Bool} (h : s.FromOne) (hs : EngineStep cfg s b s') : s'.FromOne := by
  cases hs with
  | startTime byMain r hpc =>
      refine ⟨?_, h.start, fun _ _ hr => by simp at hr⟩
      have hr := h.request byMain r hpc
      show (if 0 < r then r else 1) ≤ 1
      split <;> omega
  | evmRunning hpc =>
      refine ⟨h.startTime, h.start, fun byMain r hr => ?_⟩
      simp only [setEngine_engine_pc] at hr
      split at hr <;> cases hr
      exact le_refl 1
  | loopSkip atype _ _ | loopEnd atype _ => exact h.keep rfl rfl (Or.inr (by cases atype <;> simp [afterLoop]))
  | finiRunning _ =>
      refine h.keep rfl rfl (Or.inr fun byMain r => ?_)
      simp only [setEngine_engine_pc]
      split <;> nofun
  | loopCrash | closingFails => exact h.keep rfl rfl (Or.inl rfl)
  | _ => exact h.keep rfl rfl (Or.inr (by simp))

theorem FromOne.ctlStep (h : s.FromOne) (hs : CtlStep s s') : s'.FromOne := by
  cases hs with
  | «begin» _ => exact ⟨h.startTime, h.startTime, h.request⟩
  | _ => exact h.keep rfl rfl (Or.inl rfl)

theorem FromOne.step (h : s.FromOne) {a : EnvAction W m δ} (hok : StartsAtOne s a)
    (hs : s.step cfg a = some s') : s'.FromOne := by
  cases a with
  | preStart r =>
      obtain ⟨-, rfl⟩ := mainStep_cases hs
      refine ⟨h.startTime, h.start, fun byMain r' hr => ?_⟩
      cases hr
      exact hok
  | simStart | fini =>
      obtain ⟨-, rfl⟩ := mainStep_cases hs
      exact h.keep rfl rfl (Or.inr (by simp))
  | engine b => exact h.engineStep (.of hs)
  | ctl => exact h.ctlStep (.of hs)
  | slice w => cases SliceStep.of hs <;> exact h.keep rfl rfl (Or.inl rfl)
  | schedule src ev time =>
      obtain ⟨-, rfl⟩ := scheduleStep_cases hs
      exact h.keep rfl rfl (Or.inl rfl)

theorem FromOne.evmStep [DecidableEq δ] (h : s.FromOne) {e : PoolEvent (W + 1) (EvTask δ)}
    (hs : EvmStep s e s') : s'.FromOne := by
  cases hs with
  | tau | sliceStarts | sliceEnds | controllerStarts | controllerEnds | batch =>
      exact h.keep rfl rfl (Or.inl rfl)
  | startFailed byMain | enqueued byMain =>
      exact h.keep rfl rfl (Or.inr (by cases byMain <;> simp [startReturn]))
  | start | enqueueController | shutdownCall | shutdownRet => exact h.keep rfl rfl (Or.inr (by simp))

theorem FromOne.engStep (h : s.FromOne) {e : PoolEvent m UserTask} (hs : EngStep s e s') :
    s'.FromOne := by
  cases hs with
  | tau | blockStarts | blockEnds => exact h.keep rfl rfl (Or.inl rfl)
  | start | shutdownCall | loop => exact h.keep rfl rfl (Or.inr (by simp))
  | shutdownRet k _ _ _ =>
      refine h.keep rfl rfl (Or.inr fun byMain r => ?_)
      simp only [setEngine_engine_pc]
      split <;> nofun

end FromOne

end Env

/-- What the two threads keep in every run: the start time and the handshake. -/
structure View.Timed (v : View W m δ) : Prop where
  fromOne : v.env.FromOne
  inv : v.env.clockwork.Inv

theorem Env.init_clockwork_inv (cfg : Config) : (Env.init cfg : Env W m δ).clockwork.Inv where
  pair := .init
  nonneg := le_refl 0
  le := le_refl 0
  engine := ⟨rfl, rfl, rfl, rfl, rfl⟩
  ctl := ⟨rfl, rfl⟩

theorem View.Timed.step [DecidableEq δ] {cfg : Config} {v v' : View W m δ} {l : ViewLabel W m δ}
    (h : v.Timed) (hok : ViewLabel.meets Env.StartsAtOne v l) (hs : v.Step cfg l v') : v'.Timed := by
  cases hs with
  | own hrun hstep => exact ⟨h.fromOne.step hok hstep, h.inv.step (Env.clockwork_step hstep h.fromOne)⟩
  | evm hrun hp hobs =>
      have hstep := Env.EvmStep.of hobs
      exact ⟨h.fromOne.evmStep hstep, hstep.clockwork ▸ h.inv⟩
  | eng hrun hp hobs =>
      have hstep := Env.EngStep.of hobs
      exact ⟨h.fromOne.engStep hstep, hstep.clockwork ▸ h.inv⟩

/-- **Engine and controller keep step** in every run whose controller raises events from
tick 1 on. -/
theorem timed_reachable [DecidableEq δ] {cfg : Config} {v : View W m δ}
    {ok : View W m δ → ViewLabel W m δ → Prop}
    (himp : ∀ v l, ok v l → ViewLabel.meets Env.StartsAtOne v l)
    (h : Lts.ReachableIf (viewSystem cfg W m) ok v) : v.Timed := by
  refine h.invariant (fun v hv => ?_) fun v l v' hi hok hs => hi.step (himp v l hok) hs
  rw [show v = _ from hv]
  exact ⟨.init cfg, Env.init_clockwork_inv cfg⟩

end ComplexSim.Engine
