import ComplexSim.Engine.System

/-!
# The steps outside the pools, one constructor each

`EngineStep`, `CtlStep` and `SliceStep` list what the engine, the event controller and
an event worker can do next, with the guard of each branch; `EvmStep` and `EngStep`
list what an event of a pool does outside it. The proofs go by cases on these, and
never unfold the functions they come from.
-/

namespace ComplexSim.Engine

open Workerpool Events

variable {W m : Nat} {δ : Type}

namespace Env

/-- The steps of the engine. -/
inductive EngineStep (cfg : Config) (s : Env W m δ) (b : Bool) : Env W m δ → Prop where
  | startTime (byMain : Bool) (r : Int) (hpc : s.engine.pc = .start byMain (.startTime r)) :
      EngineStep cfg s b { s with
        evm := { s.evm with startTime := if 0 < r then r else 1 }
        engine := { s.engine with pc := .start byMain .wp } }
  | setNsync (hpc : s.engine.pc = .setNsync) :
      EngineStep cfg s b { s with
        timer := { s.timer with timer := csSetNsync s.timer.timer 2 }
        engine := { s.engine with pc := .firstClock } }
  | firstClock (hpc : s.engine.pc = .firstClock) :
      EngineStep cfg s b { s with
        engine := { s.engine with curTime := csGetClock s.timer.timer, pc := .evmRunning } }
  | evmRunning (hpc : s.engine.pc = .evmRunning) :
      EngineStep cfg s b
        (s.setEngine (if s.evm.running then .wpStart else .start false (.startTime 1)))
  | noActivities (hpc : s.engine.pc = .wpStart)
      (hno : ¬ (s.engine.activities ≠ [] ∧ 0 < totalTasks s.engine.activities)) :
      EngineStep cfg s b (s.setEngine (.loop .afterStep .clock))
  | loopSkip (atype : ActivityType) (hpc : s.engine.pc = .loop atype .clock)
      (hskip : s.timer.timer.clock ≤ 0 ∨ totalTasks s.engine.activities = 0) :
      EngineStep cfg s b (s.setEngine (afterLoop atype))
  | loopCrash (atype : ActivityType) (hpc : s.engine.pc = .loop atype .clock)
      (hsched : scheduleActivities s.timer.timer.clock atype 0 s.engine.activities = none) :
      EngineStep cfg s b (s.fail .stepTest)
  | loopFork (atype : ActivityType) (codes : List UserTask) (activities : List CsUserActivity)
      (hpc : s.engine.pc = .loop atype .clock) (hclock : 0 < s.timer.timer.clock)
      (htasks : totalTasks s.engine.activities ≠ 0)
      (hsched : scheduleActivities s.timer.timer.clock atype 0 s.engine.activities =
        some (codes, activities)) :
      EngineStep cfg s b { s with engine := { s.engine with
        activities := activities
        pc := .loop atype (.join (.enqueue codes [])) } }
  | loopWait (atype : ActivityType) (ids : List Int)
      (hpc : s.engine.pc = .loop atype (.join (.enqueue [] ids))) :
      EngineStep cfg s b (s.setEngine (.loop atype (.join (.wait ids))))
  | loopEnd (atype : ActivityType) (hpc : s.engine.pc = .loop atype (.join (.wait []))) :
      EngineStep cfg s b (s.setEngine (afterLoop atype))
  | terminate (hpc : s.engine.pc = .term) (hst : cfg.st = .activityScan) (hb : b = true) :
      EngineStep cfg s b { s with engine := { s.engine with stop := true, pc := .sync } }
  | goOn (hpc : s.engine.pc = .term) (hno : ¬ (cfg.st = .activityScan ∧ b)) :
      EngineStep cfg s b (s.setEngine .moreEvents)
  | moreEvents (hpc : s.engine.pc = .moreEvents) :
      EngineStep cfg s b { s with engine := { s.engine with
        stop := !csEvmMoreEvents s.evm.evTree && decide (cfg.st = .eventDriven)
        pc := .sync } }
  | pass (b' : Barrier Actor) (r : Int) (hpc : s.engine.pc = .sync)
      (henter : s.timer.enter .engine = (b', some r)) :
      EngineStep cfg s b { s with timer := b', engine := { s.engine with pc := .clock } }
  | arrive (b' : Barrier Actor) (hpc : s.engine.pc = .sync)
      (henter : s.timer.enter .engine = (b', none)) :
      EngineStep cfg s b { s with timer := b', engine := { s.engine with pc := .inSync } }
  | leave (b' : Barrier Actor) (r : Int) (hpc : s.engine.pc = .inSync)
      (hleave : s.timer.leave .engine = some (b', r)) :
      EngineStep cfg s b { s with timer := b', engine := { s.engine with pc := .clock } }
  | clockStop (hpc : s.engine.pc = .clock) (hstop : s.engine.stop = true) :
      EngineStep cfg s b { s with
        engine := { s.engine with curTime := s.timer.timer.clock, pc := .stopController } }
  | clockScan (hpc : s.engine.pc = .clock) (hstop : s.engine.stop = false)
      (hst : cfg.st = .activityScan) :
      EngineStep cfg s b { s with
        engine := { s.engine with curTime := s.timer.timer.clock, pc := .loop .user .clock } }
  | clockDriven (hpc : s.engine.pc = .clock) (hstop : s.engine.stop = false)
      (hst : cfg.st = .eventDriven) :
      EngineStep cfg s b { s with
        engine := { s.engine with curTime := s.timer.timer.clock, pc := .completion } }
  | stopController (hpc : s.engine.pc = .stopController) :
      EngineStep cfg s b { s with
        evm := { s.evm with stop := true }
        engine := { s.engine with pc := .timeStop } }
  | timeStop (hpc : s.engine.pc = .timeStop) :
      EngineStep cfg s b { s with timer := s.timer.timeStop, engine := { s.engine with pc := .closing } }
  | closing (hpc : s.engine.pc = .closing) (hclock : s.engine.curTime = s.timer.timer.clock) :
      EngineStep cfg s b (s.setEngine .returned)
  | closingFails (hpc : s.engine.pc = .closing) (hclock : s.engine.curTime ≠ s.timer.timer.clock) :
      EngineStep cfg s b (s.fail .closing)
  | wait (hpc : s.engine.pc = .completion) (hlt : s.evm.lastCompletion < s.engine.curTime) :
      EngineStep cfg s b { s with
        evm := { s.evm with waitCond := .blocked }
        engine := { s.engine with pc := .inCompletion } }
  | completed (hpc : s.engine.pc = .completion) (hge : s.engine.curTime ≤ s.evm.lastCompletion) :
      EngineStep cfg s b (s.setEngine (.loop .afterStep .clock))
  | woken (hpc : s.engine.pc = .inCompletion) (hwoken : s.evm.waitCond = .released) :
      EngineStep cfg s b { s with
        evm := { s.evm with waitCond := .out }
        engine := { s.engine with pc := .loop .afterStep .clock } }
  | finiRunning (hpc : s.engine.pc = .fini .running) :
      EngineStep cfg s b (s.setEngine (if s.evm.running then .fini .stop else .fini (.shutdown 0)))
  | finiStop (hpc : s.engine.pc = .fini .stop) :
      EngineStep cfg s b { s with
        evm := { s.evm with stop := true }
        engine := { s.engine with pc := .fini (.shutdown 0) } }

theorem EngineStep.of {cfg : Config} {s s' : Env W m δ} {b : Bool} (h : s.engineStep cfg b = some s') :
    EngineStep cfg s b s' := by
  unfold engineStep at h
  cases hpc : s.engine.pc with
  | main | returned | done => simp [hpc] at h
  | start byMain q =>
      cases q with
      | startTime r => simp only [hpc] at h; cases h; exact .startTime byMain r hpc
      | wp | enqueue | inEnqueue => simp [hpc] at h
  | setNsync => simp only [hpc] at h; cases h; exact .setNsync hpc
  | firstClock => simp only [hpc] at h; cases h; exact .firstClock hpc
  | evmRunning => simp only [hpc] at h; cases h; exact .evmRunning hpc
  | wpStart =>
      simp only [hpc] at h
      split at h <;> cases h
      exact .noActivities hpc ‹_›
  | loop atype q =>
      cases q with
      | clock =>
          simp only [hpc] at h
          split at h
          · rename_i hskip
            cases h
            exact .loopSkip atype hpc hskip
          · rename_i hgo
            obtain ⟨hclock, htasks⟩ := not_or.1 hgo
            split at h <;> cases h <;> rename_i hsched
            · exact .loopCrash atype hpc hsched
            · exact .loopFork atype _ _ hpc (not_le.1 hclock) htasks hsched
      | join j =>
          simp only [hpc] at h
          split at h <;> try cases h
          all_goals rename_i heq; cases heq
          · exact .loopWait atype _ hpc
          · exact .loopEnd atype hpc
  | term =>
      simp only [hpc] at h
      split at h <;> cases h
      · rename_i hb; exact .terminate hpc hb.1 hb.2
      · exact .goOn hpc ‹_›
  | moreEvents => simp only [hpc] at h; cases h; exact .moreEvents hpc
  | sync =>
      simp only [hpc] at h
      split at h <;> cases h
      · exact .pass _ _ hpc ‹_›
      · exact .arrive _ hpc ‹_›
  | inSync =>
      simp only [hpc] at h
      split at h <;> cases h
      exact .leave _ _ hpc ‹_›
  | clock =>
      simp only [hpc] at h
      by_cases hstop : s.engine.stop = true
      · rw [if_pos hstop] at h
        cases h
        exact .clockStop hpc hstop
      · rw [if_neg hstop] at h
        cases hst : cfg.st <;> rw [hst] at h <;> cases h
        · exact .clockScan hpc (Bool.eq_false_iff.2 hstop) hst
        · exact .clockDriven hpc (Bool.eq_false_iff.2 hstop) hst
  | stopController => simp only [hpc] at h; cases h; exact .stopController hpc
  | timeStop => simp only [hpc] at h; cases h; exact .timeStop hpc
  | closing =>
      simp only [hpc] at h
      split at h <;> cases h <;> rename_i hclock
      · exact .closing hpc hclock
      · exact .closingFails hpc hclock
  | completion =>
      simp only [hpc] at h
      split at h <;> cases h
      · exact .wait hpc ‹_›
      · exact .completed hpc (not_lt.1 ‹_›)
  | inCompletion =>
      simp only [hpc] at h
      split at h <;> cases h
      exact .woken hpc ‹_›
  | fini q =>
      cases q with
      | running => simp only [hpc] at h; cases h; exact .finiRunning hpc
      | stop => simp only [hpc] at h; cases h; exact .finiStop hpc
      | shutdown k | inShutdown k => simp [hpc] at h

/-- What a step of the engine leaves alone. -/
theorem EngineStep.frame {cfg : Config} {s s' : Env W m δ} {b : Bool} (h : EngineStep cfg s b s') :
    s'.ctl = s.ctl ∧ s'.slices = s.slices ∧ s'.blocks = s.blocks ∧ s'.log = s.log ∧
      s'.evm.evTree = s.evm.evTree := by
  cases h <;> exact ⟨rfl, rfl, rfl, rfl, rfl⟩

/-- While the engine enqueues the controller, it makes no step outside the pools. -/
theorem EngineStep.starting {cfg : Config} {s s' : Env W m δ} {b : Bool} (h : EngineStep cfg s b s') :
    s.engine.pc.starting = false ∧ s'.engine.pc.starting = false := by
  cases h with
  | loopSkip atype hpc _ | loopEnd atype hpc => rw [hpc]; cases atype <;> exact ⟨rfl, rfl⟩
  | evmRunning hpc | finiRunning hpc =>
      rw [hpc]
      refine ⟨rfl, ?_⟩
      simp only [setEngine_engine_pc]
      split <;> rfl
  | loopCrash _ hpc _ | closingFails hpc _ => exact ⟨by rw [hpc]; rfl, congrArg _ hpc⟩
  | startTime _ _ hpc | setNsync hpc | firstClock hpc | noActivities hpc _ | loopFork _ _ _ hpc _ _ _
  | loopWait _ _ hpc | terminate hpc _ _ | goOn hpc _ | moreEvents hpc | pass _ _ hpc _
  | arrive _ hpc _ | leave _ _ hpc _ | clockStop hpc _ | clockScan hpc _ _ | clockDriven hpc _ _
  | stopController hpc | timeStop hpc | closing hpc _ | wait hpc _ | completed hpc _ | woken hpc _
  | finiStop hpc => exact ⟨by rw [hpc]; rfl, rfl⟩

/-- The steps of the event controller. -/
inductive CtlStep (s : Env W m δ) : Env W m δ → Prop where
  | begin (hpc : s.ctl.pc = .begin) :
      CtlStep s { s with ctl := { s.ctl with start := s.evm.startTime, pc := .firstClock } }
  | firstClock (hpc : s.ctl.pc = .firstClock) :
      CtlStep s { s with ctl := { s.ctl with curTime := s.timer.timer.clock, pc := .setRunning } }
  | setRunning (hpc : s.ctl.pc = .setRunning) :
      CtlStep s { s with evm := { s.evm with running := true }, ctl := { s.ctl with pc := .sync } }
  | pass (b' : Barrier Actor) (r : Int) (hpc : s.ctl.pc = .sync)
      (henter : s.timer.enter .controller = (b', some r)) :
      CtlStep s { s with
        timer := b'
        ctl := { s.ctl with pc := if r < 0 then .setNotRunning else .clock } }
  | arrive (b' : Barrier Actor) (hpc : s.ctl.pc = .sync)
      (henter : s.timer.enter .controller = (b', none)) :
      CtlStep s { s with timer := b', ctl := { s.ctl with pc := .inSync } }
  | leave (b' : Barrier Actor) (r : Int) (hpc : s.ctl.pc = .inSync)
      (hleave : s.timer.leave .controller = some (b', r)) :
      CtlStep s { s with
        timer := b'
        ctl := { s.ctl with pc := if r < 0 then .setNotRunning else .clock } }
  | clock (hpc : s.ctl.pc = .clock) :
      CtlStep s { s with ctl := { s.ctl with curTime := s.timer.timer.clock, pc := .shouldStop } }
  | stops (hpc : s.ctl.pc = .shouldStop) (hstop : s.evm.stop = true) :
      CtlStep s (s.setCtl .setNotRunning)
  | early (hpc : s.ctl.pc = .shouldStop) (hstop : s.evm.stop = false)
      (hlt : s.ctl.curTime < s.ctl.start) : CtlStep s (s.setCtl .sync)
  | goOn (hpc : s.ctl.pc = .shouldStop) (hstop : s.evm.stop = false)
      (hge : s.ctl.start ≤ s.ctl.curTime) : CtlStep s (s.setCtl .pop)
  | popNone (hpc : s.ctl.pc = .pop) (hpop : (popEvents s.evm.evTree s.ctl.curTime).2 = none) :
      CtlStep s { s with
        evm := { s.evm with evTree := (popEvents s.evm.evTree s.ctl.curTime).1 }
        ctl := { s.ctl with pc := .signal } }
  | popCrash (evList : CsEventList δ) (hpc : s.ctl.pc = .pop)
      (hpop : (popEvents s.evm.evTree s.ctl.curTime).2 = some evList) (hW : W = 0) :
      CtlStep s ({ s with
        evm := { s.evm with evTree := (popEvents s.evm.evTree s.ctl.curTime).1 }
        log := { s.log with popped := s.log.popped ++ evList.dues } }.fail .guardSpacing)
  | pop (evList : CsEventList δ) (hpc : s.ctl.pc = .pop)
      (hpop : (popEvents s.evm.evTree s.ctl.curTime).2 = some evList) (hW : W ≠ 0) :
      CtlStep s { s with
        evm := { s.evm with evTree := (popEvents s.evm.evTree s.ctl.curTime).1 }
        log := { s.log with popped := s.log.popped ++ evList.dues }
        ctl := { s.ctl with pc := .batch (.enqueue ((sliceTasks evList W).map .slice) []) } }
  | batchWait (ids : List Int) (hpc : s.ctl.pc = .batch (.enqueue [] ids)) :
      CtlStep s (s.setCtl (.batch (.wait ids)))
  | batchEnd (hpc : s.ctl.pc = .batch (.wait [])) : CtlStep s (s.setCtl .signal)
  | signal (hpc : s.ctl.pc = .signal) :
      CtlStep s { s with
        evm := { s.evm with lastCompletion := s.ctl.curTime, waitCond := s.evm.waitCond.wake }
        ctl := { s.ctl with pc := .sync } }
  | setNotRunning (hpc : s.ctl.pc = .setNotRunning) :
      CtlStep s { s with evm := { s.evm with running := false }, ctl := { s.ctl with pc := .returned } }

theorem CtlStep.of {s s' : Env W m δ} (h : s.ctlStep = some s') : CtlStep s s' := by
  unfold ctlStep at h
  cases hpc : s.ctl.pc with
  | off | returned | gone => simp [hpc] at h
  | «begin» => simp only [hpc] at h; cases h; exact .begin hpc
  | firstClock => simp only [hpc] at h; cases h; exact .firstClock hpc
  | setRunning => simp only [hpc] at h; cases h; exact .setRunning hpc
  | sync =>
      simp only [hpc] at h
      split at h <;> cases h
      · exact .pass _ _ hpc ‹_›
      · exact .arrive _ hpc ‹_›
  | inSync =>
      simp only [hpc] at h
      split at h <;> cases h
      exact .leave _ _ hpc ‹_›
  | clock => simp only [hpc] at h; cases h; exact .clock hpc
  | shouldStop =>
      simp only [hpc] at h
      cases h
      by_cases hstop : s.evm.stop = true
      · rw [if_pos hstop]
        exact .stops hpc hstop
      · have hgo := Bool.eq_false_iff.2 hstop
        rw [if_neg hstop]
        split
        · exact .early hpc hgo ‹_›
        · exact .goOn hpc hgo (not_lt.1 ‹_›)
  | pop =>
      simp only [hpc] at h
      cases hpop : (popEvents s.evm.evTree s.ctl.curTime).2 with
      | none => simp only [hpop] at h; cases h; exact .popNone hpc hpop
      | some evList =>
          simp only [hpop] at h
          split at h <;> cases h
          · exact .popCrash evList hpc hpop ‹_›
          · exact .pop evList hpc hpop ‹_›
  | batch j =>
      simp only [hpc] at h
      split at h <;> try cases h
      all_goals rename_i heq; cases heq
      · exact .batchWait _ hpc
      · exact .batchEnd hpc
  | signal => simp only [hpc] at h; cases h; exact .signal hpc
  | setNotRunning => simp only [hpc] at h; cases h; exact .setNotRunning hpc

/-- What a step of the controller leaves alone. -/
theorem CtlStep.frame {s s' : Env W m δ} (h : CtlStep s s') :
    s'.engine = s.engine ∧ s'.slices = s.slices ∧ s'.blocks = s.blocks ∧
      s'.ctl.worker = s.ctl.worker ∧ s'.log.accepted = s.log.accepted ∧
      s'.log.thrown = s.log.thrown ∧ s'.log.handled = s.log.handled := by
  cases h <;> exact ⟨rfl, rfl, rfl, rfl, rfl, rfl, rfl⟩

/-- The steps of the event worker on `w`. -/
inductive SliceStep (cfg : Config) (s : Env W m δ) (w : Fin (W + 1)) : Env W m δ → Prop where
  | handled (r : SliceRun δ) (ev : CsEvent δ) (hr : s.slices w = some r) (hev : r.handling = some ev) :
      SliceStep cfg s w { s with
        slices := Function.update s.slices w (some { r with handling := none })
        log := { s.log with handled := s.log.handled ++ [⟨ev, r.data.scheduledAt⟩] } }
  | nullEvent (r : SliceRun δ) (hr : s.slices w = some r) (hno : r.handling = none)
      (hlt : (r.c : Int) < r.data.numEvents) (hcur : r.curEv = []) :
      SliceStep cfg s w (s.fail .nullEvent)
  | eventType (r : SliceRun δ) (ev : CsEvent δ) (rest : List (CsEvent δ)) (hr : s.slices w = some r)
      (hno : r.handling = none) (hlt : (r.c : Int) < r.data.numEvents) (hcur : r.curEv = ev :: rest)
      (htype : ev.etype = none) : SliceStep cfg s w (s.fail .eventType)
  | throw (r : SliceRun δ) (ev : CsEvent δ) (rest : List (CsEvent δ)) (etype : String)
      (hr : s.slices w = some r) (hno : r.handling = none) (hlt : (r.c : Int) < r.data.numEvents)
      (hcur : r.curEv = ev :: rest) (htype : ev.etype = some etype) (hin : etype ∈ cfg.handlers) :
      SliceStep cfg s w { s with
        slices := Function.update s.slices w
          (some { r with c := r.c + 1, curEv := rest, handling := some ev })
        log := { s.log with
          thrown := s.log.thrown ++ [(⟨ev, r.data.scheduledAt⟩, s.timer.timer.clock)] } }
  | noHandler (r : SliceRun δ) (ev : CsEvent δ) (rest : List (CsEvent δ)) (etype : String)
      (hr : s.slices w = some r) (hno : r.handling = none) (hlt : (r.c : Int) < r.data.numEvents)
      (hcur : r.curEv = ev :: rest) (htype : ev.etype = some etype) (hin : etype ∉ cfg.handlers) :
      SliceStep cfg s w { s with
        slices := Function.update s.slices w (some { r with c := r.c + 1, curEv := rest })
        log := { s.log with
          thrown := s.log.thrown ++ [(⟨ev, r.data.scheduledAt⟩, s.timer.timer.clock)]
          handled := s.log.handled ++ [⟨ev, r.data.scheduledAt⟩] } }

theorem SliceStep.of {cfg : Config} {s s' : Env W m δ} {w : Fin (W + 1)}
    (h : s.sliceStep cfg w = some s') : SliceStep cfg s w s' := by
  unfold sliceStep at h
  cases hr : s.slices w with
  | none => simp [hr] at h
  | some r =>
      simp only [hr] at h
      cases hev : r.handling with
      | some ev => simp only [hev] at h; cases h; exact .handled r ev hr hev
      | none =>
          simp only [hev] at h
          split at h
          · rename_i hlt
            split at h
            · rename_i hcur
              cases h
              exact .nullEvent r hr hev hlt hcur
            · rename_i ev rest hcur
              split at h
              · rename_i htype
                cases h
                exact .eventType r ev rest hr hev hlt hcur htype
              · rename_i etype htype
                split at h <;> cases h
                · exact .throw r ev rest etype hr hev hlt hcur htype ‹_›
                · rw [← hev]; exact .noHandler r ev rest etype hr hev hlt hcur htype ‹_›
          · cases h

theorem scheduleStep_cases {s s' : Env W m δ} {src : Source W m} {ev : CsEvent δ} {time : Int}
    (h : s.scheduleStep src ev time = some s') :
    s.sourceRuns src = true ∧ s' = { s with
      evm := { s.evm with evTree := (csEvmScheduleEvent ev time s.evm.evTree).1 }
      log := { s.log with
        accepted := if (csEvmScheduleEvent ev time s.evm.evTree).2 = 0 then
          s.log.accepted ++ [⟨ev, time⟩] else s.log.accepted } } := by
  unfold scheduleStep at h
  split at h <;> cases h
  exact ⟨‹_›, rfl⟩

theorem mainStep_cases {s s' : Env W m δ} {before next : EnginePc}
    (h : s.mainStep before next = some s') : s.engine.pc = before ∧ s' = s.setEngine next := by
  unfold mainStep at h
  split at h <;> cases h
  exact ⟨‹_›, rfl⟩

/-- What the events of the pool of the event manager do outside it. -/
inductive EvmStep [DecidableEq δ] (s : Env W m δ) :
    PoolEvent (W + 1) (EvTask δ) → Env W m δ → Prop where
  | tau : EvmStep s .tau s
  | startFailed (byMain : Bool) (r : Int) (hpc : s.engine.pc = .start byMain .wp) (hr : r < 0) :
      EvmStep s (.startRet r) (s.setEngine (startReturn byMain))
  | start (byMain : Bool) (r : Int) (hpc : s.engine.pc = .start byMain .wp) (hr : ¬ r < 0) :
      EvmStep s (.startRet r) (s.setEngine (.start byMain .enqueue))
  | enqueueController (byMain : Bool) (hpc : s.engine.pc = .start byMain .enqueue) :
      EvmStep s (.enqueueCall (.ext 0) .controller) (s.setEngine (.start byMain .inEnqueue))
  | enqueued (byMain : Bool) (r : Int) (hpc : s.engine.pc = .start byMain .inEnqueue) :
      EvmStep s (.enqueueRet (.ext 0) r) (s.setEngine (startReturn byMain))
  | controllerStarts (w : Fin (W + 1)) (t : TskId) (hpc : s.ctl.pc = .off) :
      EvmStep s (.started w t (some .controller))
        { s with ctl := { s.ctl with pc := .begin, worker := w } }
  | sliceStarts (w : Fin (W + 1)) (t : TskId) (d : EventWorkerData δ) (hfree : s.slices w = none) :
      EvmStep s (.started w t (some (.slice d))) { s with
        slices := Function.update s.slices w
          (some { data := d, c := 0, curEv := d.guard, handling := none }) }
  | sliceEnds (w : Fin (W + 1)) (t : TskId) (r : SliceRun δ) (hr : s.slices w = some r)
      (hend : r.ended = true) :
      EvmStep s (.finished w t) { s with slices := Function.update s.slices w none }
  | controllerEnds (w : Fin (W + 1)) (t : TskId) (hnone : s.slices w = none)
      (hw : s.ctl.worker = w) (hpc : s.ctl.pc = .returned) :
      EvmStep s (.finished w t) (s.setCtl .gone)
  | shutdownCall (k : Nat) (hpc : s.engine.pc = .fini (.shutdown k)) (hk : k < 2) :
      EvmStep s .shutdownCall (s.setEngine (.fini (.inShutdown k)))
  | shutdownRet (k : Nat) (r : Int) (hpc : s.engine.pc = .fini (.inShutdown k)) (hk : k < 2) :
      EvmStep s (.shutdownRet r) (s.setEngine (.fini (.shutdown (k + 1))))
  | batch (j j' : Join (EvTask δ)) (e : PoolEvent (W + 1) (EvTask δ)) (hpc : s.ctl.pc = .batch j)
      (hj : j.observe (.task s.ctl.worker) e = some j') : EvmStep s e (s.setCtl (.batch j'))

theorem EvmStep.of [DecidableEq δ] {s s' : Env W m δ} {e : PoolEvent (W + 1) (EvTask δ)}
    (h : s.observeEvm e = some s') : EvmStep s e s' := by
  unfold observeEvm at h
  split at h
  · cases h; exact .tau
  · split at h <;> cases h
    rename_i byMain hpc
    split
    · exact .startFailed byMain _ hpc ‹_›
    · exact .start byMain _ hpc ‹_›
  · split at h <;> cases h
    exact .enqueueController _ ‹_›
  · split at h <;> cases h
    exact .enqueued _ _ ‹_›
  · split at h <;> cases h
    exact .controllerStarts _ _ ‹_›
  · split at h <;> cases h
    exact .sliceStarts _ _ _ ‹_›
  · split at h
    · rename_i r hr
      split at h <;> cases h
      exact .sliceEnds _ _ r hr ‹_›
    · rename_i hnone
      split at h <;> cases h
      rename_i hctl
      exact .controllerEnds _ _ hnone hctl.1 hctl.2
  · split at h
    · split at h <;> cases h
      exact .shutdownCall _ ‹_› ‹_›
    · cases h
  · split at h
    · split at h <;> cases h
      exact .shutdownRet _ _ ‹_› ‹_›
    · cases h
  · split at h
    · obtain ⟨j', hj, rfl⟩ := Option.map_eq_some_iff.1 h
      exact .batch _ j' _ ‹_› hj
    · cases h

/-- What the events of the pool of the engine do outside it. -/
inductive EngStep (s : Env W m δ) : PoolEvent m UserTask → Env W m δ → Prop where
  | tau : EngStep s .tau s
  | start (r : Int) (hpc : s.engine.pc = .wpStart) (hact : s.engine.activities ≠ [])
      (htasks : 0 < totalTasks s.engine.activities) :
      EngStep s (.startRet r) (s.setEngine (.loop .afterStep .clock))
  | blockStarts (v : Fin m) (t : TskId) (x : UserTask) (hfree : s.blocks v = none) :
      EngStep s (.started v t (some x)) { s with blocks := Function.update s.blocks v (some x) }
  | blockEnds (v : Fin m) (t : TskId) (x : UserTask) (hx : s.blocks v = some x) :
      EngStep s (.finished v t) { s with blocks := Function.update s.blocks v none }
  | shutdownCall (k : Nat) (hpc : s.engine.pc = .fini (.shutdown k)) (hk : 2 ≤ k) :
      EngStep s .shutdownCall (s.setEngine (.fini (.inShutdown k)))
  | shutdownRet (k : Nat) (r : Int) (hpc : s.engine.pc = .fini (.inShutdown k)) (hk : 2 ≤ k) :
      EngStep s (.shutdownRet r) (s.setEngine (if k < 3 then .fini (.shutdown (k + 1)) else .done))
  | loop (atype : ActivityType) (j j' : Join UserTask) (e : PoolEvent m UserTask)
      (hpc : s.engine.pc = .loop atype (.join j)) (hj : j.observe (.ext 0) e = some j') :
      EngStep s e (s.setEngine (.loop atype (.join j')))

theorem EngStep.of {s s' : Env W m δ} {e : PoolEvent m UserTask} (h : s.observeEng e = some s') :
    EngStep s e s' := by
  unfold observeEng at h
  split at h
  · cases h; exact .tau
  · split at h <;> cases h
    rename_i hstart
    exact .start _ hstart.1 hstart.2.1 hstart.2.2
  · split at h <;> cases h
    exact .blockStarts _ _ _ ‹_›
  · split at h <;> cases h
    obtain ⟨x, hx⟩ := Option.ne_none_iff_exists'.1 ‹_›
    exact .blockEnds _ _ x hx
  · split at h
    · split at h <;> cases h
      exact .shutdownCall _ ‹_› (not_lt.1 ‹_›)
    · cases h
  · split at h
    · split at h <;> cases h
      exact .shutdownRet _ _ ‹_› (not_lt.1 ‹_›)
    · cases h
  · split at h
    · obtain ⟨j', hj, rfl⟩ := Option.map_eq_some_iff.1 h
      exact .loop _ _ j' _ ‹_› hj
    · cases h

end Env

end ComplexSim.Engine
