import ComplexSim.Engine.Steps

/-!
# Stopping the actors (`_cs_stop_actors` in `src/cs_engine.c`)

Two flags end a simulation: the engine sets `stop` of the event manager, which the controller tests in each
iteration, and then `stop` of the timer, which wakes whoever waits for the next tick and refuses whoever comes
later. Here any thread may make the two calls, in any order and at any time, besides the run of the engine; a
waiting thread may wake up without a broadcast, and the number of actors may be changed.

Only the order of the calls is left to chance, not the outcome: when both flags are set, the controller stops at
its next test or at its next tick. What the order decides is counted by `passed`.
-/

namespace ComplexSim.Engine

open Workerpool Events

variable {W m : Nat} {δ : Type}

/-- A run, and how many stop tests the controller has passed since `cs_time_stop`. -/
structure StopRun (W m : Nat) (δ : Type) where
  sim : Sim W m δ
  passed : Nat

inductive StopAction (W m : Nat) (δ : Type) where
  | sim (a : SimAction W m δ)
  /-- another thread calls `cs_evm_stop_controller` -/
  | stopController
  /-- another thread calls `cs_time_stop` -/
  | timeStop
  /-- another thread calls `cs_set_nsync` -/
  | setNsync (n : Int)
  /-- `pthread_cond_wait` returns without a broadcast -/
  | wake (a : Actor)

/-- The actor is woken, if it waits. -/
def wakeActor (b : Barrier Actor) (a : Actor) : Barrier Actor :=
  { b with place := Function.update b.place a (b.place a).wake }

/-- The controller is at its stop test. -/
def CtlPc.atTest : CtlPc δ → Bool
  | .shouldStop => true
  | _ => false

/-- The controller has left its loop. -/
def CtlPc.leaves : CtlPc δ → Bool
  | .setNotRunning => true
  | _ => false

/-- The action takes the controller from its stop test to anywhere but out of its loop. -/
def passesTest (s s' : Env W m δ) : StopAction W m δ → Bool
  | .sim (.own .ctl) => s.ctl.pc.atTest && !s'.ctl.pc.leaves
  | _ => false

/-- What another thread does. -/
def Env.outsideStep (s : Env W m δ) : StopAction W m δ → Env W m δ
  | .sim _ => s
  | .stopController => { s with evm := { s.evm with stop := true } }
  | .timeStop => { s with timer := s.timer.timeStop }
  | .setNsync n => { s with timer := { s.timer with timer := csSetNsync s.timer.timer n } }
  | .wake a => { s with timer := wakeActor s.timer a }

/-- One step of a run, with the count. -/
def StopRun.step [DecidableEq δ] (cfg : Config) (s : StopRun W m δ) (a : StopAction W m δ) : Option (StopRun W m δ) :=
  if s.sim.env.failed.isSome then none
  else match a with
    | .sim b => (s.sim.step cfg b).map fun sim =>
        { sim := sim
          passed := if s.sim.env.timer.timer.stop && passesTest s.sim.env sim.env a then s.passed + 1
            else s.passed }
    | a => some { s with sim := { s.sim with env := s.sim.env.outsideStep a } }

def stopSystem [DecidableEq δ] (cfg : Config) (W m : Nat) : Lts.System (StopRun W m δ) (StopAction W m δ) :=
  .ofFn (· = { sim := .init cfg W m δ, passed := 0 }) (StopRun.step cfg)

/-- `_cs_stop_actors` has returned. -/
def EnginePc.stopped : EnginePc → Bool
  | .closing | .returned | .fini _ | .done => true
  | _ => false

/-- The controller has synchronised and not tested yet. -/
def CtlPc.testing : CtlPc δ → Bool
  | .inSync | .clock | .shouldStop => true
  | _ => false

theorem atTest_testing {pc : CtlPc δ} (h : pc.atTest = true) : pc.testing = true := by
  cases pc with
  | shouldStop => rfl
  | _ => cases h

/-- Both flags are set. -/
def Env.Stopped (s : Env W m δ) : Prop := s.evm.stop = true ∧ s.timer.timer.stop = true

/-- The flags against the places of the threads. -/
structure Orderly (s : Env W m δ) (passed : Nat) : Prop where
  awake : s.timer.timer.stop = true → ∀ a, s.timer.place a ≠ .blocked
  stopping : s.engine.pc = .timeStop → s.evm.stop = true
  stopped : s.engine.pc.stopped = true → s.Stopped
  running : s.timer.timer.stop = false → passed = 0
  testing : s.ctl.pc.testing = true → passed = 0
  atMost : passed ≤ 1

section Timer

variable {b b' : Barrier Actor} {a : Actor}

/-- A stopped timer refuses every call, and nothing changes. -/
theorem enter_stopped (h : b.timer.stop = true) : b.enter a = (b, some (-1)) := by
  simp [Barrier.enter, csTimeSync, h]

theorem enter_flag {r : Option Int} (h : b.enter a = (b', r)) : b'.timer.stop = b.timer.stop := by
  cases Barrier.Entered.of h <;> rfl

theorem enter_awake {r : Option Int} (h : b.enter a = (b', r))
    (hawake : b.timer.stop = true → ∀ c, b.place c ≠ .blocked) : b'.timer.stop = true → ∀ c, b'.place c ≠ .blocked := by
  rw [enter_flag h]
  intro hstop
  rw [enter_stopped hstop] at h
  cases h
  exact hawake hstop

/-- A call that does not return -1 has found the timer running. -/
theorem enter_running {r : Option Int} (h : b.enter a = (b', r)) (hr : ∀ x, r = some x → ¬ x < 0) :
    b.timer.stop = false := by
  by_contra hstop
  rw [enter_stopped (Bool.not_eq_false _ ▸ hstop)] at h
  cases h
  exact hr (-1) rfl (by decide)

theorem leave_awake {r : Int} (h : b.leave a = some (b', r))
    (hawake : b.timer.stop = true → ∀ c, b.place c ≠ .blocked) : b'.timer.stop = true → ∀ c, b'.place c ≠ .blocked := by
  obtain ⟨-, -, rfl⟩ := Barrier.leave_cases h
  intro hstop c
  by_cases hc : c = a
  · subst hc
    simp
  · simpa [hc] using hawake hstop c

theorem wakeActor_awake (hawake : b.timer.stop = true → ∀ c, b.place c ≠ .blocked) :
    (wakeActor b a).timer.stop = true → ∀ c, (wakeActor b a).place c ≠ .blocked := by
  intro hstop c
  by_cases hc : c = a
  · subst hc
    simp [wakeActor]
  · simpa [wakeActor, hc] using hawake hstop c

end Timer

section Steps

variable {s s' : Env W m δ} {passed passed' : Nat}

/-- What a step makes of an orderly state. -/
structure Keeps (s s' : Env W m δ) (passed' : Nat) : Prop where
  orderly : Orderly s' passed'
  stopped : s.Stopped → s'.Stopped

/-- A step that takes back no flag, and moves nobody towards a test of a stopped timer. -/
theorem Orderly.keep (h : Orderly s passed) (hflag : s'.timer.timer.stop = s.timer.timer.stop)
    (hawake : s'.timer.timer.stop = true → ∀ a, s'.timer.place a ≠ .blocked)
    (hstop : s.evm.stop = true → s'.evm.stop = true)
    (hstopping : s'.engine.pc = .timeStop → s'.evm.stop = true)
    (hstopped : s'.engine.pc.stopped = true → s.engine.pc.stopped = true)
    (htesting : s'.ctl.pc.testing = true → s.ctl.pc.testing = true ∨ s.timer.timer.stop = false) :
    Keeps s s' passed where
  orderly :=
    { awake := hawake
      stopping := hstopping
      stopped := fun hpc => ⟨hstop (h.stopped (hstopped hpc)).1, hflag.trans (h.stopped (hstopped hpc)).2⟩
      running := fun hrun => h.running (hflag.symm.trans hrun)
      testing := fun hpc => (htesting hpc).elim h.testing h.running
      atMost := h.atMost }
  stopped := fun hs => ⟨hstop hs.1, hflag.trans hs.2⟩

/-- A step of the engine that sets no flag. -/
theorem Orderly.engine (h : Orderly s passed) (htimer : s'.timer = s.timer) (hstop : s'.evm.stop = s.evm.stop)
    (hctl : s'.ctl.pc = s.ctl.pc) (hstopping : s'.engine.pc ≠ .timeStop)
    (hstopped : s'.engine.pc.stopped = true → s.engine.pc.stopped = true) : Keeps s s' passed :=
  h.keep (by rw [htimer]) (by rw [htimer]; exact h.awake) (fun hs => hstop.trans hs)
    (fun hpc => absurd hpc hstopping) hstopped fun hpc => Or.inl (hctl ▸ hpc)

/-- A step of others that leaves the timer and the flag alone. -/
theorem Orderly.quiet (h : Orderly s passed) (htimer : s'.timer = s.timer) (hstop : s'.evm.stop = s.evm.stop)
    (hengine : s'.engine.pc = s.engine.pc) (htesting : s'.ctl.pc.testing = true → s.ctl.pc.testing = true) :
    Keeps s s' passed :=
  h.keep (by rw [htimer]) (by rw [htimer]; exact h.awake) (fun hs => hstop.trans hs)
    (fun hpc => hstop.trans (h.stopping (hengine ▸ hpc))) (fun hpc => hengine ▸ hpc) fun hpc => Or.inl (htesting hpc)

/-- `cs_time_stop` wakes whoever waits, whoever calls it. -/
theorem Orderly.timeStop (h : Orderly s passed) (htimer : s'.timer = s.timer.timeStop) (hevm : s'.evm = s.evm)
    (hctl : s'.ctl = s.ctl) (hstopping : s'.engine.pc = .timeStop → s.engine.pc = .timeStop)
    (hstopped : s'.engine.pc.stopped = true → s.evm.stop = true) : Keeps s s' passed where
  orderly :=
    { awake := fun _ a => by
        rw [htimer]
        exact Place.wake_ne_blocked _
      stopping := fun hpc => hevm ▸ h.stopping (hstopping hpc)
      stopped := fun hpc => ⟨hevm ▸ hstopped hpc, by rw [htimer]; rfl⟩
      running := fun hrun => by
        rw [htimer] at hrun
        cases hrun
      testing := fun hpc => h.testing (hctl ▸ hpc)
      atMost := h.atMost }
  stopped := fun hs => ⟨hevm ▸ hs.1, by rw [htimer]; rfl⟩

/-- **The engine.** -/
theorem Orderly.engineStep (h : Orderly s passed) {cfg : Config} {b : Bool} (hs : Env.EngineStep cfg s b s') :
    Keeps s s' passed := by
  cases hs with
  | startTime _ _ _ | firstClock _ | noActivities _ _ | loopFork _ _ _ _ _ _ _ | loopWait _ _ _ | terminate _ _ _
  | goOn _ _ | moreEvents _ | clockStop _ _ | clockScan _ _ _ | clockDriven _ _ _ | wait _ _ | completed _ _
  | woken _ _ => exact h.engine rfl rfl rfl (by simp) (by simp [EnginePc.stopped])
  | evmRunning _ => split <;> exact h.engine rfl rfl rfl (by simp) (by simp [EnginePc.stopped])
  | loopSkip atype _ _ | loopEnd atype _ =>
      cases atype <;> exact h.engine rfl rfl rfl (by simp [Env.afterLoop]) (by simp [Env.afterLoop, EnginePc.stopped])
  | loopCrash atype hpc _ => exact h.engine rfl rfl rfl (by simp [hpc]) id
  | closingFails hpc _ => exact h.engine rfl rfl rfl (by simp [hpc]) id
  | closing hpc _ => exact h.engine rfl rfl rfl (by simp) fun _ => by rw [hpc]; rfl
  | finiRunning hpc => split <;> exact h.engine rfl rfl rfl (by simp) fun _ => by rw [hpc]; rfl
  | finiStop hpc =>
      exact h.keep rfl h.awake (fun _ => rfl) (by simp) (fun _ => by rw [hpc]; rfl) Or.inl
  | setNsync _ => exact h.keep rfl h.awake id (by simp) (by simp [EnginePc.stopped]) Or.inl
  | pass b' r _ henter | arrive b' _ henter =>
      exact h.keep (enter_flag henter) (enter_awake henter h.awake) id (by simp) (by simp [EnginePc.stopped]) Or.inl
  | leave b' r _ hleave =>
      exact h.keep (by rw [Barrier.leave_timer hleave]) (leave_awake hleave h.awake) id (by simp)
        (by simp [EnginePc.stopped]) Or.inl
  | stopController _ => exact h.keep rfl h.awake (fun _ => rfl) (fun _ => rfl) (by simp [EnginePc.stopped]) Or.inl
  | timeStop hpc => exact h.timeStop rfl rfl rfl (by simp) fun _ => h.stopping hpc

/-- **The controller**, where it passes no test. -/
theorem Orderly.ctlStep (h : Orderly s passed) (hs : Env.CtlStep s s')
    (hno : passesTest s s' (.sim (.own .ctl)) = false) : Keeps s s' passed := by
  cases hs with
  | «begin» _ | firstClock _ | setRunning _ | popNone _ _ | pop _ _ _ _ | batchWait _ _ | batchEnd _ | signal _
  | setNotRunning _ | stops _ _ => exact h.quiet rfl rfl rfl (by simp [CtlPc.testing])
  | popCrash _ hpc _ _ => exact h.quiet rfl rfl rfl (by simp [hpc])
  | clock hpc => exact h.quiet rfl rfl rfl fun _ => by rw [hpc]; rfl
  | pass b' r _ henter =>
      refine h.keep (enter_flag henter) (enter_awake henter h.awake) id h.stopping id fun htesting => Or.inr ?_
      apply enter_running henter
      rintro x hx hneg
      cases hx
      rw [if_pos hneg] at htesting
      cases htesting
  | arrive b' _ henter =>
      exact h.keep (enter_flag henter) (enter_awake henter h.awake) id h.stopping id fun _ =>
        Or.inr (enter_running henter (by simp))
  | leave b' r hpc hleave =>
      exact h.keep (by rw [Barrier.leave_timer hleave]) (leave_awake hleave h.awake) id h.stopping id fun _ =>
        Or.inl (by rw [hpc]; rfl)
  | early hpc _ _ | goOn hpc _ _ => simp [passesTest, CtlPc.atTest, CtlPc.leaves, hpc] at hno

/-- **The controller**, where it passes a test: after `cs_time_stop` it is the first. -/
theorem Orderly.passes (h : Orderly s passed) (hs : Env.CtlStep s s')
    (hpass : passesTest s s' (.sim (.own .ctl)) = true) :
    Keeps s s' (if s.timer.timer.stop then passed + 1 else passed) := by
  simp only [passesTest, Bool.and_eq_true, Bool.not_eq_true'] at hpass
  obtain ⟨htest, hstays⟩ := hpass
  have hzero : passed = 0 := h.testing (atTest_testing htest)
  obtain ⟨pc, hnot, rfl⟩ : ∃ pc : CtlPc δ, pc.testing = false ∧ s' = s.setCtl pc := by
    cases hs with
    | early _ _ _ | goOn _ _ _ => exact ⟨_, rfl, rfl⟩
    | stops _ _ => simp [CtlPc.leaves] at hstays
    | «begin» hother | firstClock hother | setRunning hother | popNone hother _ | pop _ hother _ _ | batchWait _ hother
    | batchEnd hother | signal hother | setNotRunning hother | popCrash _ hother _ _ | clock hother
    | pass _ _ hother _ | arrive _ hother _ | leave _ _ hother _ =>
        rw [hother] at htest
        cases htest
  refine ⟨⟨h.awake, h.stopping, h.stopped, fun hstop => ?_, fun htesting => ?_, ?_⟩, id⟩
  · have hstop : s.timer.timer.stop = false := hstop
    rw [hstop, hzero]
    rfl
  · have htesting : pc.testing = true := htesting
    rw [hnot] at htesting
    cases htesting
  · split <;> omega

/-- **The pool of the event manager.** -/
theorem Orderly.evmStep [DecidableEq δ] (h : Orderly s passed) {e : PoolEvent (W + 1) (EvTask δ)}
    (hs : Env.EvmStep s e s') : Keeps s s' passed := by
  cases hs with
  | tau => exact ⟨h, id⟩
  | startFailed byMain _ _ _ | enqueued byMain _ _ =>
      cases byMain <;>
        exact h.engine rfl rfl rfl (by simp [Env.startReturn]) (by simp [Env.startReturn, EnginePc.stopped])
  | start _ _ _ _ | enqueueController _ _ => exact h.engine rfl rfl rfl (by simp) (by simp [EnginePc.stopped])
  | shutdownCall _ hpc _ | shutdownRet _ _ hpc _ => exact h.engine rfl rfl rfl (by simp) fun _ => by rw [hpc]; rfl
  | controllerStarts _ _ _ | controllerEnds _ _ _ _ _ | batch _ _ _ _ _ =>
      exact h.quiet rfl rfl rfl (by simp [CtlPc.testing])
  | sliceStarts _ _ _ _ | sliceEnds _ _ _ _ _ => exact h.quiet rfl rfl rfl id

/-- **The pool of the engine.** -/
theorem Orderly.engStep (h : Orderly s passed) {e : PoolEvent m UserTask} (hs : Env.EngStep s e s') :
    Keeps s s' passed := by
  cases hs with
  | tau => exact ⟨h, id⟩
  | start _ _ _ _ | loop _ _ _ _ _ _ => exact h.engine rfl rfl rfl (by simp) (by simp [EnginePc.stopped])
  | blockStarts _ _ _ _ | blockEnds _ _ _ _ => exact h.quiet rfl rfl rfl id
  | shutdownCall _ hpc _ => exact h.engine rfl rfl rfl (by simp) fun _ => by rw [hpc]; rfl
  | shutdownRet _ _ hpc _ =>
      refine h.engine rfl rfl rfl ?_ fun _ => by rw [hpc]; rfl
      simp only [Env.setEngine_engine_pc]
      split <;> simp

/-- The steps outside the pools that are not the controller's. -/
theorem Orderly.own (h : Orderly s passed) {cfg : Config} {a : EnvAction W m δ} (hs : s.step cfg a = some s')
    (hctl : a ≠ .ctl) : Keeps s s' passed := by
  cases a with
  | preStart r | simStart =>
      obtain ⟨-, rfl⟩ := Env.mainStep_cases hs
      exact h.engine rfl rfl rfl (by simp) (by simp [EnginePc.stopped])
  | fini =>
      obtain ⟨hpc, rfl⟩ := Env.mainStep_cases hs
      exact h.engine rfl rfl rfl (by simp) fun _ => by rw [hpc]; rfl
  | engine b => exact h.engineStep (.of hs)
  | ctl => exact absurd rfl hctl
  | slice w => cases Env.SliceStep.of hs <;> exact h.quiet rfl rfl rfl id
  | schedule src ev time =>
      obtain ⟨-, rfl⟩ := Env.scheduleStep_cases hs
      exact h.quiet rfl rfl rfl id

/-- The steps of a run. -/
theorem Orderly.simStep [DecidableEq δ] {cfg : Config} {t t' : Sim W m δ} {a : SimAction W m δ}
    (h : Orderly t.env passed) (hs : t.step cfg a = some t') :
    Keeps t.env t'.env
      (if t.env.timer.timer.stop && passesTest t.env t'.env (.sim a) then passed + 1 else passed) := by
  obtain ⟨-, ⟨b, env, rfl, hown, rfl⟩ | ⟨b, p, e, env, rfl, -, hobs, rfl⟩ | ⟨b, p, e, env, rfl, -, hobs, rfl⟩⟩ :=
    Sim.step_cases hs
  · by_cases hctl : b = .ctl
    · subst hctl
      have hstep := Env.CtlStep.of hown
      cases hpass : passesTest t.env env (.sim (.own .ctl)) with
      | false => simpa using h.ctlStep hstep hpass
      | true => simpa using h.passes hstep hpass
    · have hno : passesTest t.env env (.sim (.own b)) = false := by
        cases b with
        | ctl => exact absurd rfl hctl
        | _ => rfl
      rw [show passesTest t.env _ _ = false from hno, Bool.and_false]
      exact h.own hown hctl
  · simpa [passesTest] using h.evmStep (.of hobs)
  · simpa [passesTest] using h.engStep (.of hobs)

/-- What other threads do. -/
theorem Orderly.outside (h : Orderly s passed) (a : StopAction W m δ) : Keeps s (s.outsideStep a) passed := by
  cases a with
  | sim _ => exact ⟨h, id⟩
  | stopController => exact h.keep rfl h.awake (fun _ => rfl) (fun _ => rfl) id Or.inl
  | timeStop => exact h.timeStop rfl rfl rfl id fun hpc => (h.stopped hpc).1
  | setNsync n => exact h.keep rfl h.awake id h.stopping id Or.inl
  | wake a => exact h.keep rfl (wakeActor_awake h.awake) id h.stopping id Or.inl

/-- **One step**, of whichever thread. -/
theorem Orderly.step [DecidableEq δ] {cfg : Config} {t t' : StopRun W m δ} {a : StopAction W m δ}
    (h : Orderly t.sim.env t.passed) (hs : t.step cfg a = some t') : Keeps t.sim.env t'.sim.env t'.passed := by
  unfold StopRun.step at hs
  split at hs
  · cases hs
  · cases a with
    | sim b =>
        obtain ⟨sim, hsim, rfl⟩ := Option.map_eq_some_iff.1 hs
        exact h.simStep hsim
    | stopController => cases hs; exact h.outside .stopController
    | timeStop => cases hs; exact h.outside .timeStop
    | setNsync n => cases hs; exact h.outside (.setNsync n)
    | wake a => cases hs; exact h.outside (.wake a)

end Steps

theorem orderly_reachable [DecidableEq δ] {cfg : Config} {s : StopRun W m δ}
    (h : Lts.Reachable (stopSystem cfg W m) s) : Orderly s.sim.env s.passed := by
  refine h.invariant (I := fun s => Orderly s.sim.env s.passed) (fun s hs => ?_) fun s a s' hi _ hs => (hi.step hs).orderly
  obtain rfl := hs
  exact ⟨by simp [Sim.init, Env.init, csInitTimer, csInitTimerWith], by simp [Sim.init, Env.init],
    by simp [Sim.init, Env.init, EnginePc.stopped], fun _ => rfl, fun _ => rfl, Nat.zero_le 1⟩

/-- Once both flags are set they stay so. -/
theorem stopped_run [DecidableEq δ] {cfg : Config} {s s' : StopRun W m δ} (h : Lts.Reachable (stopSystem cfg W m) s)
    (hstopped : s.sim.env.Stopped) (hrun : Lts.Run (stopSystem cfg W m) (fun _ _ => True) s s') :
    Orderly s'.sim.env s'.passed ∧ s'.sim.env.Stopped :=
  hrun.invariant (I := fun s => Orderly s.sim.env s.passed ∧ s.sim.env.Stopped)
    (fun _ _ _ hi _ hs => ⟨(hi.1.step hs).orderly, (hi.1.step hs).stopped hi.2⟩) ⟨orderly_reachable h, hstopped⟩

/-- A controller that finds the flag set at its test leaves its loop. -/
theorem stops_at_test {s s' : Env W m δ} (h : s.evm.stop = true) (hs : Env.CtlStep s s') :
    passesTest s s' (.sim (.own .ctl)) = false := by
  cases hs with
  | stops _ _ => simp [passesTest, CtlPc.leaves]
  | early _ hrun _ | goOn _ hrun _ =>
      rw [h] at hrun
      cases hrun
  | «begin» hpc | firstClock hpc | setRunning hpc | popNone hpc _ | pop _ hpc _ _ | batchWait _ hpc | batchEnd hpc
  | signal hpc | setNotRunning hpc | popCrash _ hpc _ _ | clock hpc | pass _ _ hpc _ | arrive _ hpc _
  | leave _ _ hpc _ => simp [passesTest, CtlPc.atTest, hpc]

/-- Once the flag of the event manager is set, no step passes the test. -/
theorem passes_no_test [DecidableEq δ] {cfg : Config} {s s' : StopRun W m δ} {a : StopAction W m δ}
    (h : s.sim.env.evm.stop = true) (hs : s.step cfg a = some s') :
    passesTest s.sim.env s'.sim.env a = false := by
  cases a with
  | stopController | timeStop | setNsync n | wake a => rfl
  | sim b =>
      by_cases hctl : b = .own .ctl
      · subst hctl
        unfold StopRun.step at hs
        split at hs
        · cases hs
        · obtain ⟨sim, hsim, rfl⟩ := Option.map_eq_some_iff.1 hs
          obtain ⟨-, ⟨b, env, hb, hown, rfl⟩ | ⟨b, p, e, env, hb, -⟩ | ⟨b, p, e, env, hb, -⟩⟩ := Sim.step_cases hsim
          · cases hb
            exact stops_at_test h (.of hown)
          · cases hb
          · cases hb
      · unfold passesTest
        split
        · rename_i heq
          cases heq
          exact absurd rfl hctl
        · rfl

/-- **The stop protocol**: when `_cs_stop_actors` has returned both flags are set. From then on, whoever has set
them and in whatever order, no actor waits for a tick, every call of `cs_time_sync` returns -1 at once and
no step takes the controller past its test. Between `cs_time_stop` and `cs_evm_stop_controller` at most one does. -/
theorem stop_protocol [DecidableEq δ] (cfg : Config) (s : StopRun W m δ) (h : Lts.Reachable (stopSystem cfg W m) s) :
    (s.sim.env.engine.pc.stopped = true → s.sim.env.Stopped) ∧ s.passed ≤ 1 ∧
    (s.sim.env.Stopped → ∀ s' : StopRun W m δ, Lts.Run (stopSystem cfg W m) (fun _ _ => True) s s' →
      s'.sim.env.Stopped ∧ (∀ a, s'.sim.env.timer.place a ≠ .blocked) ∧
      (∀ a, s'.sim.env.timer.enter a = (s'.sim.env.timer, some (-1))) ∧
      ∀ a t, s'.step cfg a = some t → passesTest s'.sim.env t.sim.env a = false) := by
  have horderly := orderly_reachable h
  refine ⟨horderly.stopped, horderly.atMost, fun hstopped s' hrun => ?_⟩
  obtain ⟨horderly', hstopped'⟩ := stopped_run h hstopped hrun
  refine ⟨hstopped', horderly'.awake hstopped'.2, fun a => enter_stopped hstopped'.2, fun a t ht => ?_⟩
  exact passes_no_test hstopped'.1 ht

/-- The engine starts the controller, its termination function stops the first tick, and another thread has called
`cs_time_stop` before; the controller goes on through the one test that it may pass, and ends. -/
theorem stop_protocol_first : ∃ s : StopRun 1 1 Unit, Lts.Reachable (stopSystem ⟨.activityScan, [], []⟩ 1 1) s ∧
    s.sim.env.engine.pc = .closing ∧ s.passed = 1 ∧ s.sim.env.Stopped ∧
      (∀ a, s.sim.env.timer.enter a = (s.sim.env.timer, some (-1))) ∧
      ∀ a t, s.step ⟨.activityScan, [], []⟩ a = some t → passesTest s.sim.env t.sim.env a = false := by
  obtain ⟨s, hs, hp⟩ := Lts.exec_of_any (f := StopRun.step ⟨.activityScan, [], []⟩)
    (s := { sim := Sim.init ⟨.activityScan, [], []⟩ 1 1 Unit, passed := 0 })
    (p := fun s => decide (s.sim.env.engine.pc = .closing ∧ s.passed = 1))
    (l := List.flatten [
      [.sim (.own .simStart)], List.replicate 4 (.sim (.own (.engine false))),
      [.sim (.evm .start), .sim (.evm (.callEnqueue (.ext 0) .controller)), .sim (.evm (.call (.ext 0))),
        .sim (.evm (.create (.ext 0) 1))],
      List.replicate 4 (.sim (.evm (.call (.ext 0)))), List.replicate 6 (.sim (.evm .controller)),
      List.replicate 3 (.sim (.evm (.worker ctlWorker))), List.replicate 4 (.sim (.own .ctl)),
      List.replicate 2 (.sim (.own (.engine false))), [.sim (.own (.engine true)), .sim (.own (.engine false)), .timeStop],
      List.replicate 3 (.sim (.own .ctl)), List.replicate 3 (.sim (.own (.engine false)))])
    (by decide +kernel)
  obtain ⟨hpc, hpassed⟩ := of_decide_eq_true hp
  have hreach : Lts.Reachable (stopSystem ⟨.activityScan, [], []⟩ 1 1) s := Lts.exec_reachable rfl hs
  obtain ⟨hengine, -, hrest⟩ := stop_protocol ⟨.activityScan, [], []⟩ s hreach
  have hstopped : s.sim.env.Stopped := hengine (by rw [hpc]; rfl)
  exact ⟨s, hreach, hpc, hpassed, hstopped, (hrest hstopped s (.refl s)).2.2⟩

end ComplexSim.Engine
